import RocketmqProxy.Lib.History
import RocketmqProxy.ConsumerUnit

/-!
# The history of a consumer

`UnitObs` is what one operation on a `ConsumerUnit` shows, and `UnitSteps` the
sequences of operations with what each has shown.  Seen from one registered batch a
sequence of operations is a list of `LockerOp`, so the record of the batch is the
one `after` computes from that list.
-/

namespace RocketmqProxy

open Std

/-- Who called `setMsgAck`. -/
inductive AckSource
  | consumeAck (call : CallRef)
  | ackTimeout (unit : UnitRef)
  | cancel (call : CallRef)
deriving DecidableEq, Repr

inductive UnitObs
  /-- A listener callback registered the batch `msgs` under the locker `a`. -/
  | registered (a : Addr) (msgs : List (Addr × MQMessageExt))
  /-- The matcher popped `msg` from the batch `a` for the request `unit`. -/
  | fetched (unit : UnitRef) (a : Addr) (msg : MsgPtr)
  /-- `setMsgAck(msgId, s)` returned `ret`. -/
  | acked (source : AckSource) (msgId : String) (s : ConsumeStatus) (ret : Bool)
  | unlocked
  /-- The callback of the batch `a` returned `status` with `statusVector`. -/
  | reported (a : Addr) (status : ConsumeStatus) (statusVector : List ConsumeStatus)
deriving DecidableEq, Repr

inductive UnitStep : ConsumerUnit → UnitObs → ConsumerUnit → Prop
  | registered {u : ConsumerUnit} {a : Addr} {msgs : List (Addr × MQMessageExt)} :
      a ∉ u.lockers → (msgs.map Prod.fst).Nodup →
      UnitStep u (.registered a msgs) (u.callbackBegin a msgs)
  | fetched {u u' : ConsumerUnit} {unit : UnitRef} {a : Addr} {msg : MsgPtr} :
      u.fetchAndConsume = (some (a, msg), u') → UnitStep u (.fetched unit a msg) u'
  | acked {u : ConsumerUnit} {source : AckSource} {msgId : String} {s : ConsumeStatus} :
      -- `setMsgReconsume` is what the timeout and the cancel path call
      (∃ call, source = .consumeAck call) ∨ s = .reconsumeLater →
      UnitStep u (.acked source msgId s (u.setMsgAck msgId s).1) (u.setMsgAck msgId s).2
  | unlocked {u : ConsumerUnit} : UnitStep u .unlocked u.unlockAll
  | reported {u u' : ConsumerUnit} {a : Addr} {st : ConsumeStatus}
      {vec : List ConsumeStatus} :
      u.callbackEnd a = some (st, vec, u') → UnitStep u (.reported a st vec) u'

theorem UnitStep.fetch {u : ConsumerUnit} {unit : UnitRef} {a : Addr} {msg : MsgPtr}
    (h : u.fetchAndConsume.1 = some (a, msg)) :
    UnitStep u (.fetched unit a msg) u.fetchAndConsume.2 :=
  .fetched (Prod.ext h rfl)

theorem UnitStep.ack {u : ConsumerUnit} {source : AckSource} {msgId : String}
    {s : ConsumeStatus} {ret : Bool} (hret : (u.setMsgAck msgId s).1 = ret)
    (hs : (∃ call, source = .consumeAck call) ∨ s = .reconsumeLater) :
    UnitStep u (.acked source msgId s ret) (u.setMsgAck msgId s).2 := by
  rw [← hret]
  exact .acked hs

/-- The operations of a history, one after the other, from `u₀`.  In between the
members that are no batch records may change. -/
inductive UnitSteps (u₀ : ConsumerUnit) : List UnitObs → ConsumerUnit → Prop
  | refl : UnitSteps u₀ [] u₀
  | silent {h : List UnitObs} {u u' : ConsumerUnit} :
      UnitSteps u₀ h u → u'.lockers = u.lockers → u'.callbacks = u.callbacks →
      u'.consumer.groupName = u.consumer.groupName → UnitSteps u₀ h u'
  | step {h : List UnitObs} {u u' : ConsumerUnit} {o : UnitObs} :
      UnitSteps u₀ h u → UnitStep u o u' → UnitSteps u₀ (h ++ [o]) u'

namespace UnitObs

/-- What the operation is to the batch registered under `a`. -/
def toOp (a : Addr) : UnitObs → Option LockerOp
  | .fetched _ b _ => if b = a then some .getMsg else none
  | .acked _ msgId s _ => some (.setMsgAck msgId s)
  | .unlocked => some .unlock
  | .registered _ _ => none
  | .reported _ _ _ => none

/-- The history of a consumer as the batch registered under `a` sees it. -/
def ops (a : Addr) (h : List UnitObs) : List LockerOp := h.filterMap (toOp a)

/-- The message that the operation popped from the batch registered under `a`. -/
def toFetch (a : Addr) : UnitObs → Option MsgPtr
  | .fetched _ b msg => if b = a then some msg else none
  | _ => none

/-- The messages delivered from the batch registered under `a`, in order. -/
def fetches (a : Addr) (h : List UnitObs) : List MsgPtr := h.filterMap (toFetch a)

/-- The statuses passed to `setMsgAck` for `msgId`, in order. -/
def acks (msgId : String) (h : List UnitObs) : List ConsumeStatus :=
  h.filterMap fun o =>
    match o with
    | .acked _ x s _ => if x = msgId then some s else none
    | _ => none

/-- No callback under `a` starts or returns in `h`. -/
def Open (a : Addr) (h : List UnitObs) : Prop :=
  ∀ o ∈ h, (∀ msgs, o ≠ .registered a msgs) ∧ ∀ st vec, o ≠ .reported a st vec

@[simp] theorem ops_append (a : Addr) (h h' : List UnitObs) :
    ops a (h ++ h') = ops a h ++ ops a h' := by
  simp [ops]

@[simp] theorem fetches_append (a : Addr) (h h' : List UnitObs) :
    fetches a (h ++ h') = fetches a h ++ fetches a h' := by
  simp [fetches]

theorem ops_singleton (a : Addr) (o : UnitObs) : ops a [o] = (toOp a o).toList := by
  cases h : toOp a o <;> simp [ops, h]

theorem fetches_singleton (a : Addr) (o : UnitObs) :
    fetches a [o] = (toFetch a o).toList := by
  cases h : toFetch a o <;> simp [fetches, h]

@[simp] theorem acks_append (msgId : String) (h h' : List UnitObs) :
    acks msgId (h ++ h') = acks msgId h ++ acks msgId h' := by
  simp [acks]

theorem mem_of_mem_acks {msgId : String} {s : ConsumeStatus} {h : List UnitObs}
    (hs : s ∈ acks msgId h) : ∃ source ret, .acked source msgId s ret ∈ h := by
  obtain ⟨o, ho, he⟩ := List.mem_filterMap.mp hs
  cases o with
  | acked source x s' ret =>
    simp only [Option.ite_none_right_eq_some, Option.some.injEq] at he
    obtain ⟨rfl, rfl⟩ := he
    exact ⟨source, ret, ho⟩
  | _ => exact absurd he (by simp)

theorem mem_acks_of_mem {source : AckSource} {msgId : String} {s : ConsumeStatus} {ret : Bool}
    {h : List UnitObs} (hm : .acked source msgId s ret ∈ h) : s ∈ acks msgId h :=
  List.mem_filterMap.mpr ⟨_, hm, if_pos rfl⟩

theorem acks_ops (msgId : String) (a : Addr) (h : List UnitObs) :
    LockerOp.acks msgId (ops a h) = acks msgId h := by
  rw [LockerOp.acks, ops, List.filterMap_filterMap, acks]
  refine List.filterMap_congr fun o _ => ?_
  cases o with
  | fetched unit b msg =>
    simp only [toOp]
    split <;> rfl
  | _ => rfl

theorem unlock_mem_ops (a : Addr) (h : List UnitObs) :
    LockerOp.unlock ∈ ops a h ↔ UnitObs.unlocked ∈ h := by
  simp only [ops, List.mem_filterMap]
  constructor
  · rintro ⟨o, ho, he⟩
    cases o with
    | unlocked => exact ho
    | fetched unit b msg =>
      simp only [toOp] at he
      split at he <;> simp at he
    | registered b msgs => simp [toOp] at he
    | acked source msgId s ret => simp [toOp] at he
    | reported b st vec => simp [toOp] at he
  · exact fun ho => ⟨.unlocked, ho, rfl⟩

theorem Open.concat {a : Addr} {h : List UnitObs} (hopen : Open a h) {o : UnitObs}
    (hr : ∀ msgs, o ≠ .registered a msgs) (hp : ∀ st vec, o ≠ .reported a st vec) :
    Open a (h ++ [o]) := by
  intro o' ho'
  rcases List.mem_append.mp ho' with h' | h'
  · exact hopen o' h'
  · obtain rfl := List.mem_singleton.mp h'
    exact ⟨hr, hp⟩

/-- A batch that is still open was registered at one point of the history. -/
theorem Open.last_registered {a : Addr} {msgs msgs' : List (Addr × MQMessageExt)}
    {h₁ h₂ k₁ k₂ : List UnitObs} (hh : Open a h₂) (hk : Open a k₂)
    (he : h₁ ++ .registered a msgs :: h₂ = k₁ ++ .registered a msgs' :: k₂) :
    msgs = msgs' ∧ h₂ = k₂ := by
  have hlast := History.last_unique (P := fun o : UnitObs => ∃ msgs, o = .registered a msgs)
    ⟨msgs, rfl⟩ ⟨msgs', rfl⟩ (fun o ho ⟨m, hm⟩ => (hh o ho).1 m hm)
    (fun o ho ⟨m, hm⟩ => (hk o ho).1 m hm) he
  exact ⟨(UnitObs.registered.inj hlast.1).2, hlast.2⟩

end UnitObs

open UnitObs

/-- One operation seen from a batch that stays registered. -/
theorem UnitStep.locker {u u' : ConsumerUnit} {o : UnitObs} {a : Addr}
    {l : ConsumerUnitLocker} (h : UnitStep u o u') (hl : u.lockers[a]? = some l)
    (hp : ∀ st vec, o ≠ .reported a st vec) :
    u'.lockers[a]? = some ((ops a [o]).foldl ConsumerUnitLocker.apply l) := by
  cases h with
  | registered hfresh hn =>
    rename_i b msgs
    have hmem : a ∈ u.lockers := by
      rw [TreeMap.mem_iff_isSome_getElem?, hl]
      rfl
    have hba : ¬ b = a := by
      rintro rfl
      exact hfresh hmem
    simp only [ConsumerUnit.callbackBegin, ConsumerUnit.waitLock]
    rw [TreeMapLoop.getElem?_insertIfNew, if_neg hba, hl]
    rfl
  | fetched hf =>
    rename_i unit b msg
    obtain ⟨l₀, rest, hl₀, hq, rfl⟩ := ConsumerUnit.fetchAndConsume_some hf
    rw [TreeMap.getElem?_insert]
    by_cases hba : b = a
    · subst hba
      obtain rfl := Option.some.inj (hl₀.symm.trans hl)
      simp [ops_singleton, toOp, ConsumerUnitLocker.apply_getMsg, hq]
    · simp [ops_singleton, toOp, hba, hl]
  | acked =>
    rw [ConsumerUnit.setMsgAck_lockers, hl]
    rfl
  | unlocked =>
    rw [ConsumerUnit.unlockAll_lockers, hl]
    rfl
  | reported he =>
    rename_i b st vec
    obtain ⟨l₀, msgs, -, -, -, -, rfl⟩ := ConsumerUnit.callbackEnd_some he
    have hba : ¬ b = a := by
      rintro rfl
      exact hp st vec rfl
    rw [TreeMap.getElem?_erase, ops_singleton]
    simp [hba, hl, toOp]

/-- The callback of a batch that stays registered keeps its argument. -/
theorem UnitStep.callbacks {u u' : ConsumerUnit} {o : UnitObs} {a : Addr}
    {l : ConsumerUnitLocker} (h : UnitStep u o u') (hl : u.lockers[a]? = some l)
    (hp : ∀ st vec, o ≠ .reported a st vec) : u'.callbacks[a]? = u.callbacks[a]? := by
  cases h with
  | @registered b msgs hfresh _ =>
    have hba : ¬ b = a := by
      rintro rfl
      rw [TreeMap.mem_iff_isSome_getElem?, hl] at hfresh
      exact hfresh rfl
    simp only [ConsumerUnit.callbackBegin]
    rw [TreeMap.getElem?_insert]
    simp [hba]
  | fetched hf =>
    obtain ⟨l₀, rest, -, -, rfl⟩ := ConsumerUnit.fetchAndConsume_some hf
    rfl
  | acked => rfl
  | unlocked => rfl
  | @reported u' b st vec he =>
    obtain ⟨l₀, msgs, -, -, -, -, rfl⟩ := ConsumerUnit.callbackEnd_some he
    have hba : ¬ b = a := by
      rintro rfl
      exact hp st vec rfl
    rw [TreeMap.getElem?_erase]
    simp [hba]

/-- A batch that is registered after an operation is the one that it registers, or was
registered before. -/
theorem UnitStep.locker_back {u u' : ConsumerUnit} {o : UnitObs} {a : Addr}
    {l' : ConsumerUnitLocker} (h : UnitStep u o u') (hl' : u'.lockers[a]? = some l') :
    (∃ msgs, o = .registered a msgs ∧ (msgs.map Prod.fst).Nodup ∧
        l' = .new msgs u.consumer.groupName ∧ u'.callbacks[a]? = some (msgs.map Prod.snd)) ∨
      ((∀ st vec, o ≠ .reported a st vec) ∧ ∃ l, u.lockers[a]? = some l) := by
  cases h with
  | @registered b msgs hfresh hn =>
    simp only [ConsumerUnit.callbackBegin, ConsumerUnit.waitLock] at hl' ⊢
    rw [TreeMapLoop.getElem?_insertIfNew] at hl'
    by_cases hba : b = a
    · subst hba
      have hnone : u.lockers[b]? = none := by
        rw [← Option.not_isSome_iff_eq_none, ← TreeMap.mem_iff_isSome_getElem?]
        exact hfresh
      rw [if_pos rfl, hnone] at hl'
      obtain rfl := Option.some.inj hl'
      exact .inl ⟨msgs, rfl, hn, rfl, TreeMap.getElem?_insert_self⟩
    · rw [if_neg hba] at hl'
      exact .inr ⟨by simp, l', hl'⟩
  | @fetched u' unit b msg hf =>
    obtain ⟨l₀, rest, hl₀, -, rfl⟩ := ConsumerUnit.fetchAndConsume_some hf
    by_cases hba : b = a
    · subst hba
      exact .inr ⟨by simp, l₀, hl₀⟩
    · rw [TreeMap.getElem?_insert] at hl'
      exact .inr ⟨by simp, l', by simpa [hba] using hl'⟩
  | acked =>
    rw [ConsumerUnit.setMsgAck_lockers] at hl'
    obtain ⟨l, hl, -⟩ := Option.map_eq_some_iff.mp hl'
    exact .inr ⟨by simp, l, hl⟩
  | unlocked =>
    rw [ConsumerUnit.unlockAll_lockers] at hl'
    obtain ⟨l, hl, -⟩ := Option.map_eq_some_iff.mp hl'
    exact .inr ⟨by simp, l, hl⟩
  | @reported u' b st vec he =>
    obtain ⟨-, -, -, -, -, -, rfl⟩ := ConsumerUnit.callbackEnd_some he
    rw [TreeMap.getElem?_erase] at hl'
    split at hl'
    · exact absurd hl' (by simp)
    · rename_i hba
      refine .inr ⟨fun st' vec' ho => hba ?_, l', hl'⟩
      rw [(UnitObs.reported.inj ho).1]
      exact ReflCmp.compare_self

/-- No operation on the batches touches the SDK consumer. -/
theorem UnitStep.consumer {u u' : ConsumerUnit} {o : UnitObs} (h : UnitStep u o u') :
    u'.consumer = u.consumer := by
  cases h with
  | registered => rfl
  | fetched hf =>
    obtain ⟨l, rest, -, -, rfl⟩ := ConsumerUnit.fetchAndConsume_some hf
    rfl
  | acked => rfl
  | unlocked => rfl
  | reported he =>
    obtain ⟨l, msgs, -, -, -, -, rfl⟩ := ConsumerUnit.callbackEnd_some he
    rfl

theorem UnitSteps.groupName {u₀ u : ConsumerUnit} {h : List UnitObs} (hs : UnitSteps u₀ h u) :
    u.consumer.groupName = u₀.consumer.groupName := by
  induction hs with
  | refl => rfl
  | silent _ _ _ hg ih => exact hg.trans ih
  | step _ hstep ih => exact (congrArg _ hstep.consumer).trans ih

/-- The record of a batch that stays registered is its old record after the
operations of the history. -/
theorem UnitSteps.locker {u₀ u : ConsumerUnit} {h : List UnitObs} {a : Addr}
    {l : ConsumerUnitLocker} (hs : UnitSteps u₀ h u) (hl : u₀.lockers[a]? = some l)
    (hp : ∀ st vec, .reported a st vec ∉ h) :
    u.lockers[a]? = some ((ops a h).foldl ConsumerUnitLocker.apply l) := by
  induction hs with
  | refl => exact hl
  | silent _ hlock _ _ ih => rw [hlock, ih hp]
  | @step h u u' o hs hstep ih =>
    have hp₁ : ∀ st vec, .reported a st vec ∉ h :=
      fun st vec hm => hp st vec (List.mem_append_left _ hm)
    have hp₂ : ∀ st vec, o ≠ .reported a st vec := by
      rintro st vec rfl
      exact hp st vec (List.mem_append_right h List.mem_cons_self)
    rw [hstep.locker (ih hp₁) hp₂, ops_append, List.foldl_append]

/-! ## Batches of a consumer that started empty -/

/-- The batch `msgs` under `a`, whose record is `l`, has seen `h` since it was
registered. -/
structure Registered (group : String) (h : List UnitObs) (a : Addr)
    (msgs : List (Addr × MQMessageExt)) (l : ConsumerUnitLocker) : Prop where
  isOpen : Open a h
  nodup : (msgs.map Prod.fst).Nodup
  record : l = .after msgs group (ops a h)
  queue : msgs.map (ConsumerUnitLocker.ptr group) = fetches a h ++ l.fetchedArr

theorem Registered.start {group : String} {a : Addr} {msgs : List (Addr × MQMessageExt)}
    (hn : (msgs.map Prod.fst).Nodup) :
    Registered group [] a msgs (.new msgs group) where
  isOpen := by simp [Open]
  nodup := hn
  record := rfl
  queue := by simp [fetches]

theorem UnitStep.keeps_registered {u u' : ConsumerUnit} {o : UnitObs} {a : Addr}
    {group : String} {h : List UnitObs} {msgs : List (Addr × MQMessageExt)}
    {l : ConsumerUnitLocker} (hstep : UnitStep u o u') (hl : u.lockers[a]? = some l)
    (hr : Registered group h a msgs l) (hp : ∀ st vec, o ≠ .reported a st vec) :
    ∃ l', u'.lockers[a]? = some l' ∧ Registered group (h ++ [o]) a msgs l' := by
  have hmem : a ∈ u.lockers := by
    rw [TreeMap.mem_iff_isSome_getElem?, hl]
    rfl
  have hreg : ∀ msgs', o ≠ .registered a msgs' := by
    rintro msgs' rfl
    cases hstep with
    | registered hfresh _ => exact hfresh hmem
  refine ⟨_, hstep.locker hl hp, hr.isOpen.concat hreg hp, hr.nodup, ?_, ?_⟩
  · rw [hr.record, ops_append, ConsumerUnitLocker.after, ConsumerUnitLocker.after,
      List.foldl_append]
  · rw [hr.queue, fetches_append, List.append_assoc, ops_singleton, fetches_singleton]
    congr 1
    cases hstep with
    | registered => simp [toFetch, toOp]
    | fetched hf =>
      rename_i unit b msg
      obtain ⟨l₀, rest, hl₀, hq, -⟩ := ConsumerUnit.fetchAndConsume_some hf
      by_cases hba : b = a
      · subst hba
        obtain rfl := Option.some.inj (hl₀.symm.trans hl)
        simp [toFetch, toOp, ConsumerUnitLocker.apply_getMsg, hq]
      · simp [toFetch, toOp, hba]
    | acked => simp [toFetch, toOp, ConsumerUnitLocker.apply, ConsumerUnitLocker.ack]
    | unlocked => simp [toFetch, toOp, ConsumerUnitLocker.apply]
    | reported => simp [toFetch, toOp]

/-- What a history tells about each batch that is still registered, and about each
callback that has returned. -/
structure UnitHistory (group : String) (h : List UnitObs) (u : ConsumerUnit) : Prop where
  registered : ∀ (a : Addr) (l : ConsumerUnitLocker), u.lockers[a]? = some l →
    ∃ h₁ msgs h₂, h = h₁ ++ .registered a msgs :: h₂ ∧ Registered group h₂ a msgs l ∧
      u.callbacks[a]? = some (msgs.map Prod.snd)
  reported : ∀ h₁ a st vec h₃, h = h₁ ++ .reported a st vec :: h₃ →
    ∃ h₀ msgs h₂ l, h₁ = h₀ ++ .registered a msgs :: h₂ ∧ Registered group h₂ a msgs l ∧
      l.clientStatus = .msgConsumeAck ∧ (st, vec) = l.verdict (msgs.map Prod.snd)

theorem UnitStep.history {u u' : ConsumerUnit} {o : UnitObs} {h : List UnitObs}
    (hstep : UnitStep u o u') (hh : UnitHistory u.consumer.groupName h u) :
    UnitHistory u.consumer.groupName (h ++ [o]) u' where
  registered a l' hl' := by
    rcases hstep.locker_back hl' with ⟨msgs, rfl, hn, rfl, hcb⟩ | ⟨hp, l, hl⟩
    · exact ⟨h, msgs, [], rfl, .start hn, hcb⟩
    · obtain ⟨h₁, msgs, h₂, rfl, hr, hm⟩ := hh.registered a l hl
      obtain ⟨l'', hl'', hr'⟩ := hstep.keeps_registered hl hr hp
      obtain rfl := Option.some.inj (hl'.symm.trans hl'')
      exact ⟨h₁, msgs, h₂ ++ [o], by simp, hr', (hstep.callbacks hl hp).trans hm⟩
  reported h₁ a st vec h₃ he := by
    rcases History.concat_eq_append_cons he with ⟨h₃', -, he'⟩ | ⟨-, rfl, rfl⟩
    · exact hh.reported h₁ a st vec h₃' he'
    · cases hstep with
      | reported hend =>
        obtain ⟨l₀, msgs₀, hl₀, hm₀, hrel, hv, -⟩ := ConsumerUnit.callbackEnd_some hend
        obtain ⟨h₀, msgs, h₂, rfl, hr, hm⟩ := hh.registered a l₀ hl₀
        obtain rfl := Option.some.inj (hm₀.symm.trans hm)
        exact ⟨h₀, msgs, h₂, l₀, rfl, hr, hrel, hv⟩

/-- The history of a consumer that started without batches accounts for every
registered batch and every verdict. -/
theorem UnitSteps.history {u₀ u : ConsumerUnit} {h : List UnitObs} (hs : UnitSteps u₀ h u)
    (h₀ : u₀.lockers = ∅) : UnitHistory u₀.consumer.groupName h u := by
  induction hs with
  | refl =>
    refine ⟨fun a l hl => ?_, by simp⟩
    rw [h₀, TreeMap.getElem?_emptyc] at hl
    exact absurd hl (by simp)
  | silent _ hlock hcb _ ih =>
    refine ⟨fun a l hl => ?_, ih.reported⟩
    rw [hlock] at hl
    rw [hcb]
    exact ih.registered a l hl
  | step hs hstep ih =>
    rw [← hs.groupName] at ih ⊢
    exact hstep.history ih

/-! ## Looking back from a point of a history -/

/-- The state in which an operation of the history was done. -/
theorem UnitSteps.step_at {u₀ u : ConsumerUnit} {h₁ h₂ : List UnitObs} {o : UnitObs}
    (hs : UnitSteps u₀ (h₁ ++ o :: h₂) u) :
    ∃ u₁ u₂, UnitSteps u₀ h₁ u₁ ∧ UnitStep u₁ o u₂ := by
  generalize hk : h₁ ++ o :: h₂ = k at hs
  induction hs generalizing h₂ with
  | refl => exact absurd hk (by simp)
  | silent _ _ _ _ ih => exact ih hk
  | @step k u u' o' hs hstep ih =>
    rcases History.concat_eq_append_cons hk.symm with ⟨h₂', -, rfl⟩ | ⟨-, rfl, rfl⟩
    · exact ih rfl
    · exact ⟨u, u', hs, hstep⟩

/-- A batch whose callback has not returned since it was registered is still in
`lockers`. -/
theorem UnitSteps.registered_open {u₀ u : ConsumerUnit} {h k : List UnitObs} {a : Addr}
    {msgs : List (Addr × MQMessageExt)}
    (hs : UnitSteps u₀ (h ++ .registered a msgs :: k) u) (hopen : Open a k) :
    ∃ l, u.lockers[a]? = some l ∧ Registered u₀.consumer.groupName k a msgs l := by
  generalize hh : h ++ UnitObs.registered a msgs :: k = h' at hs
  induction hs generalizing k with
  | refl => exact absurd hh (by simp)
  | silent _ hlock _ _ ih =>
    obtain ⟨l, hl, hr⟩ := ih hopen hh
    exact ⟨l, by rw [hlock, hl], hr⟩
  | @step h' u u' o hs hstep ih =>
    rcases History.concat_eq_append_cons hh.symm with ⟨k', rfl, rfl⟩ | ⟨rfl, rfl, rfl⟩
    · obtain ⟨l, hl, hr⟩ := ih (fun o' ho' => hopen o' (List.mem_append_left _ ho')) rfl
      exact hstep.keeps_registered hl hr
        (hopen o (List.mem_append_right k' List.mem_cons_self)).2
    · cases hstep with
      | registered hfresh hn =>
        have hnone : u.lockers[a]? = none := by
          rw [← Option.not_isSome_iff_eq_none, ← TreeMap.mem_iff_isSome_getElem?]
          exact hfresh
        refine ⟨.new msgs u₀.consumer.groupName, ?_, .start hn⟩
        simp only [ConsumerUnit.callbackBegin, ConsumerUnit.waitLock]
        rw [TreeMapLoop.getElem?_insertIfNew, if_pos rfl, hnone, hs.groupName]
        rfl

/-- What is popped from a batch is the first of its messages not popped before. -/
theorem UnitSteps.fetched {u₀ u : ConsumerUnit} {h₁ h₂ : List UnitObs} {unit : UnitRef}
    {a : Addr} {msg : MsgPtr} (hs : UnitSteps u₀ (h₁ ++ .fetched unit a msg :: h₂) u)
    (h₀ : u₀.lockers = ∅) :
    ∃ k₁ msgs k₂ rest, h₁ = k₁ ++ .registered a msgs :: k₂ ∧ Open a k₂ ∧
      (msgs.map Prod.fst).Nodup ∧
      msgs.map (ConsumerUnitLocker.ptr u₀.consumer.groupName) =
        fetches a k₂ ++ msg :: rest := by
  obtain ⟨u₁, u₂, hs₁, hstep⟩ := hs.step_at
  cases hstep with
  | fetched hf =>
    obtain ⟨l, rest, hl, hq, -⟩ := ConsumerUnit.fetchAndConsume_some hf
    obtain ⟨k₁, msgs, k₂, rfl, hr, -⟩ := (hs₁.history h₀).registered a l hl
    exact ⟨k₁, msgs, k₂, rest, rfl, hr.isOpen, hr.nodup, by rw [hr.queue, hq]⟩

/-- While a batch is registered, an ack of the id of one of its messages is
accepted, and only a ConsumeAck passes a status other than RECONSUME_LATER. -/
theorem UnitSteps.acked {u₀ u : ConsumerUnit} {h k₁ k₂ : List UnitObs} {a : Addr}
    {msgs : List (Addr × MQMessageExt)} {source : AckSource} {msgId : String}
    {s : ConsumeStatus} {ret : Bool}
    (hs : UnitSteps u₀ (h ++ .registered a msgs :: (k₁ ++ .acked source msgId s ret :: k₂)) u)
    (hopen : Open a k₁) (hm : ∃ p ∈ msgs, p.2.msgId = msgId) :
    ret = true ∧ ((∃ call, source = .consumeAck call) ∨ s = .reconsumeLater) := by
  rw [← List.cons_append, ← List.append_assoc] at hs
  obtain ⟨u₁, u₂, hs₁, hstep⟩ := hs.step_at
  obtain ⟨l, hl, hr⟩ := hs₁.registered_open hopen
  cases hstep with
  | acked hsource =>
    refine ⟨?_, hsource⟩
    obtain ⟨p, hp, hid⟩ := hm
    rw [ConsumerUnit.setMsgAck_accepted]
    refine ⟨a, l, p.1, hl, ?_⟩
    rw [hr.record, (ConsumerUnitLocker.tracks_after hr.nodup _).filed]
    exact ⟨p, hp, rfl, hid⟩

end RocketmqProxy
