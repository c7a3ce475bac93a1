import RocketmqProxy.Lib.Runs
import RocketmqProxy.Threads

/-!
# What one step of a thread can do

The steps that take or release `lockersMtx`, those that write to the map of batches, and
those that leave both alone are told apart here, so that an invariant of the locks need
not look into the functions.
-/

namespace RocketmqProxy
namespace UnitThreads

open Std (TreeMap)

/-- The steps of a walk over the batches that move the iterator. -/
inductive Goes (lockers : TreeMap Addr BatchRef) (op : Op) : WorkPc → WorkPc → Prop
  | begin : Goes lockers op .begin (visitAt op (Iterator.first lockers))
  | iterNext (a : Addr) (b : BatchRef) :
      Goes lockers op (.visit a b .iterNext) (visitAt op (Iterator.next lockers a))
  | break (a : Addr) (b : BatchRef) : Goes lockers op (.visit a b .break) .unlock

/-- The action of the call `c`, which goes on as `w`, on the batch `b`. -/
inductive Acts (c : WorkRef) (w : Work) (b : BatchRef) (batch : Batch) :
    Action → Work → Batch → List ThreadObs → Prop
  | none : Acts c w b batch .none w batch []
  | write (r : RecordWrite) :
      Acts c w b batch (.write r) w { batch with record := batch.record.write r }
        [.wrote (.worker c) b r]
  | found : Acts c w b batch .found { w with ret := true } batch [.found c b]
  | lockMtx (hm : batch.mtx = none) :
      Acts c w b batch .lockMtx w { batch with mtx := some (.worker c) } []
  | unlockMtx : Acts c w b batch .unlockMtx w { batch with mtx := none } []
  | popNone (hg : batch.record.getMsg = none) : Acts c w b batch .pop w batch []
  | pop {msg : MsgPtr} {l : ConsumerUnitLocker} (hg : batch.record.getMsg = some (msg, l)) :
      Acts c w b batch .pop { w with msg := some msg } { batch with record := l }
        [.fetched c b msg]
  | notify : Acts c w b batch .notify w batch.wake [.notified c b]

/-- The steps of a callback that touch nothing but its own batch. -/
inductive Moves (b : BatchRef) (batch : Batch) : Batch → List ThreadObs → Prop
  | lockMtx (hpc : batch.pc = .lockMtx) (hm : batch.mtx = none) :
      Moves b batch { batch with mtx := some (.callback b), pc := .unlock } []
  | test (hpc : batch.pc = .test) :
      Moves b batch { batch with
        pc := if batch.record.clientStatus = .msgConsumeAck then .unlockMtx else .sleep } []
  | sleep (hpc : batch.pc = .sleep) :
      Moves b batch { batch with mtx := none, pc := .asleep } [.slept b]
  | relock (hpc : batch.pc = .woken) (hm : batch.mtx = none) :
      Moves b batch { batch with mtx := some (.callback b), pc := .test } []
  | unlockMtx (hpc : batch.pc = .unlockMtx) :
      Moves b batch { batch with mtx := none, pc := .lockErase } []
  | readStatus (hpc : batch.pc = .readStatus) :
      Moves b batch { batch with
        pc := if batch.record.status = .reconsumeLater then .readReconsume 0 []
          else .readResult [] } [.verdict b]
  | readReconsume {i : Nat} {vec : List ConsumeStatus} {msg : MQMessageExt}
      (hpc : batch.pc = .readReconsume i vec) (hi : batch.msgs[i]? = some msg) :
      Moves b batch { batch with
        pc := .readReconsume (i + 1) (vec ++
          [if batch.record.reconsumeMap.contains msg.msgId then .reconsumeLater
            else .consumeSuccess]) } []
  | readEnd {i : Nat} {vec : List ConsumeStatus} (hpc : batch.pc = .readReconsume i vec)
      (hi : batch.msgs[i]? = none) : Moves b batch { batch with pc := .readResult vec } []
  | readResult {vec : List ConsumeStatus} (hpc : batch.pc = .readResult vec) :
      Moves b batch { batch with pc := .returned batch.record.status vec } []

inductive Step (s : UnitThreads) : ThreadEvent → UnitThreads → Prop
  | callback {addr : Addr} {msgs : List (Addr × MQMessageExt)}
      (hnew : ∀ batch ∈ s.batches, batch.Live → batch.addr ≠ addr)
      (hnodup : (msgs.map Prod.fst).Nodup) :
      Step s (.callback addr msgs)
        { s with batches := s.batches ++ [.new s.group addr msgs] }
  | call {op : Op} : Step s (.call op) { s with works := s.works ++ [.new op] }
  | wake {b : BatchRef} {batch : Batch} (hb : s.batches[b]? = some batch)
      (ha : batch.pc = .asleep) : Step s (.wake b) (s.setBatch b batch.wake)
  | workLock {c : WorkRef} {w : Work} {m : SharedMutex Tid} (hc : s.works[c]? = some w)
      (hpc : w.pc = .lock) (hl : s.lockersMtx.lock w.op.mode (.worker c) = some m) :
      Step s (.turn (.worker c)) { s.setWork c { w with pc := .begin } with lockersMtx := m }
  | workUnlock {c : WorkRef} {w : Work} (hc : s.works[c]? = some w) (hpc : w.pc = .unlock) :
      Step s (.turn (.worker c)) { s.setWork c { w with pc := .done } with
        lockersMtx := s.lockersMtx.unlock w.op.mode (.worker c)
        trace := s.trace ++ [.returned c w.ret] }
  | go {c : WorkRef} {w : Work} {pc : WorkPc} (hc : s.works[c]? = some w)
      (hgo : Goes s.lockers w.op w.pc pc) :
      Step s (.turn (.worker c)) (s.setWork c { w with pc := pc })
  | act {c : WorkRef} {w w' : Work} {a : Addr} {b : BatchRef} {pc : BodyPc}
      {batch batch' : Batch} {obs : List ThreadObs} (hc : s.works[c]? = some w)
      (hpc : w.pc = .visit a b pc) (hb : s.batches[b]? = some batch)
      (ha : Acts c { w with pc := .visit a b (pc.next batch.record) } b batch pc.action
        w' batch' obs) :
      Step s (.turn (.worker c))
        { (s.setWork c w').setBatch b batch' with trace := s.trace ++ obs }
  | callbackLock {b : BatchRef} {batch : Batch} {pc : CallbackPc} {m : SharedMutex Tid}
      (hb : s.batches[b]? = some batch)
      (hpc : batch.pc = .lock ∧ pc = .insert ∨ batch.pc = .lockErase ∧ pc = .erase)
      (hl : s.lockersMtx.lock .exclusive (.callback b) = some m) :
      Step s (.turn (.callback b)) { s.setBatch b { batch with pc := pc } with lockersMtx := m }
  | callbackUnlock {b : BatchRef} {batch : Batch} {pc : CallbackPc}
      (hb : s.batches[b]? = some batch)
      (hpc : batch.pc = .unlock ∧ pc = .test ∨ batch.pc = .unlockErase ∧ pc = .readStatus) :
      Step s (.turn (.callback b)) { s.setBatch b { batch with pc := pc } with
        lockersMtx := s.lockersMtx.unlock .exclusive (.callback b) }
  | insert {b : BatchRef} {batch : Batch} (hb : s.batches[b]? = some batch)
      (hpc : batch.pc = .insert) :
      Step s (.turn (.callback b)) { s.setBatch b { batch with pc := .lockMtx } with
        lockers := s.lockers.insertIfNew batch.addr b }
  | erase {b : BatchRef} {batch : Batch} (hb : s.batches[b]? = some batch)
      (hpc : batch.pc = .erase) :
      Step s (.turn (.callback b)) { s.setBatch b { batch with pc := .unlockErase } with
        lockers := s.lockers.erase batch.addr }
  | move {b : BatchRef} {batch batch' : Batch} {obs : List ThreadObs}
      (hb : s.batches[b]? = some batch) (hm : Moves b batch batch' obs) :
      Step s (.turn (.callback b)) { s.setBatch b batch' with trace := s.trace ++ obs }

section Cases

variable {s s' : UnitThreads}

theorem setBatch_self {b : BatchRef} {batch : Batch} (hb : s.batches[b]? = some batch) :
    s.setBatch b batch = s := by
  obtain ⟨hlt, rfl⟩ := List.getElem?_eq_some_iff.mp hb
  rw [setBatch, List.set_getElem_self]

theorem act_cases {c : WorkRef} {w : Work} {b : BatchRef} {batch : Batch} {action : Action}
    (hb : s.batches[b]? = some batch) (h : s.act c w b batch action = some s') :
    ∃ w' batch' obs, Acts c w b batch action w' batch' obs ∧
      s' = { (s.setWork c w').setBatch b batch' with trace := s.trace ++ obs } := by
  have hself (w : Work) : (s.setWork c w).setBatch b batch = s.setWork c w :=
    setBatch_self (s := s.setWork c w) hb
  cases action with
  | none =>
    obtain rfl := Option.some.inj h
    exact ⟨w, batch, [], .none, by rw [hself, List.append_nil]; rfl⟩
  | write r =>
    obtain rfl := Option.some.inj h
    exact ⟨_, _, _, .write r, rfl⟩
  | found =>
    obtain rfl := Option.some.inj h
    exact ⟨_, _, _, .found, by rw [hself]; rfl⟩
  | lockMtx =>
    obtain ⟨hm, h⟩ := Option.ite_none_right_eq_some.mp h
    obtain rfl := Option.some.inj h
    exact ⟨_, _, [], .lockMtx hm, by rw [List.append_nil]; rfl⟩
  | unlockMtx =>
    obtain rfl := Option.some.inj h
    exact ⟨_, _, [], .unlockMtx, by rw [List.append_nil]; rfl⟩
  | pop =>
    simp only [act] at h
    split at h
    · next hg =>
      obtain rfl := Option.some.inj h
      exact ⟨_, _, [], .popNone hg, by rw [hself, List.append_nil]; rfl⟩
    · next msg l hg =>
      obtain rfl := Option.some.inj h
      exact ⟨_, _, _, .pop hg, rfl⟩
  | notify =>
    obtain rfl := Option.some.inj h
    exact ⟨_, _, _, .notify, rfl⟩

theorem workTurn_cases {c : WorkRef} {w : Work} (hc : s.works[c]? = some w)
    (h : s.workTurn c w = some s') : Step s (.turn (.worker c)) s' := by
  unfold workTurn at h
  split at h
  · next hpc =>
    obtain ⟨m, hl, rfl⟩ := Option.map_eq_some_iff.mp h
    exact .workLock hc hpc hl
  · next hpc =>
    obtain rfl := Option.some.inj h
    exact .go hc (hpc ▸ .begin)
  · next a b hpc =>
    obtain rfl := Option.some.inj h
    exact .go hc (hpc ▸ .iterNext a b)
  · next a b hpc =>
    obtain rfl := Option.some.inj h
    exact .go hc (hpc ▸ .break a b)
  · next a b pc _ _ hpc =>
    obtain ⟨batch, hb, h⟩ := Option.bind_eq_some_iff.mp h
    obtain ⟨w', batch', obs, ha, rfl⟩ := act_cases hb h
    exact .act hc hpc hb ha
  · next hpc =>
    obtain rfl := Option.some.inj h
    exact .workUnlock hc hpc
  · cases h

theorem callbackTurn_cases {b : BatchRef} {batch : Batch} (hb : s.batches[b]? = some batch)
    (h : s.callbackTurn b batch = some s') : Step s (.turn (.callback b)) s' := by
  have hmove {batch' : Batch} (hm : Moves b batch batch' [])
      (h : some (s.setBatch b batch') = some s') : Step s (.turn (.callback b)) s' := by
    obtain rfl := Option.some.inj h
    have hstep : Step s (.turn (.callback b))
        { s.setBatch b batch' with trace := s.trace ++ [] } := .move hb hm
    rwa [List.append_nil] at hstep
  unfold callbackTurn at h
  split at h
  · next hpc =>
    obtain ⟨m, hl, rfl⟩ := Option.map_eq_some_iff.mp h
    exact .callbackLock hb (.inl ⟨hpc, rfl⟩) hl
  · next hpc =>
    obtain rfl := Option.some.inj h
    exact .insert hb hpc
  · next hpc =>
    obtain ⟨hm, h⟩ := Option.ite_none_right_eq_some.mp h
    exact hmove (.lockMtx hpc hm) h
  · next hpc =>
    obtain rfl := Option.some.inj h
    exact .callbackUnlock hb (.inl ⟨hpc, rfl⟩)
  · next hpc => exact hmove (.test hpc) h
  · next hpc =>
    obtain rfl := Option.some.inj h
    exact .move hb (.sleep hpc)
  · cases h
  · next hpc =>
    obtain ⟨hm, h⟩ := Option.ite_none_right_eq_some.mp h
    exact hmove (.relock hpc hm) h
  · next hpc => exact hmove (.unlockMtx hpc) h
  · next hpc =>
    obtain ⟨m, hl, rfl⟩ := Option.map_eq_some_iff.mp h
    exact .callbackLock hb (.inr ⟨hpc, rfl⟩) hl
  · next hpc =>
    obtain rfl := Option.some.inj h
    exact .erase hb hpc
  · next hpc =>
    obtain rfl := Option.some.inj h
    exact .callbackUnlock hb (.inr ⟨hpc, rfl⟩)
  · next hpc =>
    obtain rfl := Option.some.inj h
    exact .move hb (.readStatus hpc)
  · next i vec hpc =>
    split at h
    · next hi => exact hmove (.readEnd hpc hi) h
    · next msg hi => exact hmove (.readReconsume hpc hi) h
  · next vec hpc => exact hmove (.readResult hpc) h
  · cases h

theorem step_cases {e : ThreadEvent} (h : s.step e = some s') : Step s e s' := by
  cases e with
  | callback addr msgs =>
    obtain ⟨⟨hnew, hnodup⟩, h⟩ := Option.ite_none_right_eq_some.mp h
    obtain rfl := Option.some.inj h
    exact .callback hnew hnodup
  | call op =>
    obtain rfl := Option.some.inj h
    exact .call
  | turn t =>
    cases t with
    | callback b =>
      obtain ⟨batch, hb, h⟩ := Option.bind_eq_some_iff.mp h
      exact callbackTurn_cases hb h
    | worker c =>
      obtain ⟨w, hc, h⟩ := Option.bind_eq_some_iff.mp h
      exact workTurn_cases hc h
  | wake b =>
    obtain ⟨batch, hb, h⟩ := Option.bind_eq_some_iff.mp h
    obtain ⟨ha, h⟩ := Option.ite_none_right_eq_some.mp h
    obtain rfl := Option.some.inj h
    exact .wake hb ha

end Cases

/-! ## Runs -/

/-- States that the threads of a consumer of this group reach. -/
abbrev Reachable (group : String) : UnitThreads → Prop :=
  Runs.Reach step (init group) Runs.always

end UnitThreads
end RocketmqProxy
