import RocketmqProxy.Lib.Mutexes
import RocketmqProxy.Threads.Locks

/-!
# The mutexes of the batches

The callback of a batch holds its `mtx` from before it leaves the map until it sleeps, and
again when it has woken; `getMsg` holds it for the time it pops a message.
-/

namespace RocketmqProxy

/-- The callback holds the `mtx` of its batch. -/
def CallbackPc.holdsMtx : CallbackPc → Bool
  | .unlock | .test | .sleep | .unlockMtx => true
  | _ => false

/-- The thread holds the `mtx` of the batch it visits. -/
def BodyPc.holdsMtx : BodyPc → Bool
  | .pop | .unlockMtx _ => true
  | _ => false

theorem BodyPc.holdsMtx_setNext (l : ConsumerUnitLocker) (msgId : String) (s : ConsumeStatus)
    (p : Addr) : (setNext l msgId s p).holdsMtx = false := by
  unfold setNext
  split <;> rfl

theorem BodyPc.holdsMtx_unlockNext (l : ConsumerUnitLocker) (p : Addr) :
    (unlockNext l p).holdsMtx = false := by
  unfold unlockNext
  split <;> rfl

/-- `mtx` is locked at the start of `getMsg` only. -/
theorem BodyPc.holdsMtx_next (l : ConsumerUnitLocker) (pc : BodyPc) :
    (pc.next l).holdsMtx = true ↔ pc = .lockMtx ∨ pc = .pop := by
  cases pc with
  | lockMtx | pop => simp [next, holdsMtx]
  | setReconsume => simp [next, holdsMtx_setNext]
  | unlockStatus => simp [next, holdsMtx_unlockNext]
  | setClientStatus =>
    rw [next]
    split
    · simp [holdsMtx]
    · simp [holdsMtx_setNext]
  | unlockTest =>
    rw [next]
    split
    · simp [holdsMtx]
    · simp [holdsMtx_unlockNext]
  | find | unlockBegin | unlockMtx =>
    rw [next]
    split <;> simp [holdsMtx]
  | check =>
    rw [next]
    split
    · simp [holdsMtx]
    · split <;> simp [holdsMtx]
  | scan =>
    rw [next]
    split
    · simp [holdsMtx]
    · dsimp only
      split <;> simp [holdsMtx]
  | setStatus | found | unlockClientStatus | release | releaseClient | notify | iterNext
  | «break» => simp [next, holdsMtx]

/-- The steps of the body that have to do with `mtx`, and the others. -/
theorem BodyPc.mtx_cases (pc : BodyPc) :
    pc = .lockMtx ∨ pc = .pop ∨ (∃ taken, pc = .unlockMtx taken) ∨
      (pc ≠ .lockMtx ∧ pc ≠ .pop) ∧ pc.holdsMtx = false ∧
        pc.action ≠ .lockMtx ∧ pc.action ≠ .unlockMtx := by
  cases pc <;> simp [holdsMtx, action]

namespace UnitThreads

open Std (TreeMap)
open Mutexes (Owned Turn)

def callbackMtx (b : BatchRef) (batch : Batch) : Option BatchRef :=
  if batch.pc.holdsMtx then some b else none

def workMtx (w : Work) : Option BatchRef :=
  match w.pc with
  | .visit _ b pc => if pc.holdsMtx then some b else none
  | _ => none

/-- The batch whose `mtx` a thread holds, to go by where it is. -/
def heldMtx (s : UnitThreads) : Tid → Option BatchRef := s.view workMtx callbackMtx

def owner (s : UnitThreads) (b : BatchRef) : Option Tid := s.batches[b]?.bind Batch.mtx

section Owner

variable {s : UnitThreads} {b : BatchRef} {batch : Batch}

theorem owner_batch (hb : s.batches[b]? = some batch) : s.owner b = batch.mtx := by
  rw [owner, hb, Option.bind_some]

theorem owner_setBatch (hb : s.batches[b]? = some batch) (batch' : Batch) :
    (s.setBatch b batch').owner = Function.update s.owner b batch'.mtx := by
  funext b'
  by_cases heq : b' = b
  · subst heq
    rw [Function.update_self, owner_batch (Heap.set_self hb batch')]
  · rw [Function.update_of_ne heq, owner, setBatch, List.getElem?_set_ne (Ne.symm heq)]
    rfl

theorem owner_append_batch {batch : Batch} (hm : batch.mtx = none) :
    owner { s with batches := s.batches ++ [batch] } = s.owner :=
  funext fun b => Heap.bind_append hm s.batches b

end Owner

/-! ## What a step does to a mutex -/

theorem wake_mtx (batch : Batch) : batch.wake.mtx = batch.mtx := by
  unfold Batch.wake
  split <;> rfl

theorem callbackMtx_of_pc {b : BatchRef} {batch batch' : Batch}
    (h : batch'.pc = batch.pc ∨ batch.pc = .asleep ∧ batch'.pc = .woken) :
    callbackMtx b batch' = callbackMtx b batch := by
  unfold callbackMtx
  rcases h with h | ⟨h, h'⟩
  · rw [h]
  · rw [h, h']
    rfl

theorem workMtx_visit {w : Work} {a : Addr} {b : BatchRef} {pc : BodyPc}
    (hpc : w.pc = .visit a b pc) : workMtx w = if pc.holdsMtx then some b else none := by
  rw [workMtx, hpc]

theorem workMtx_of_goes {lockers : TreeMap Addr BatchRef} {w : Work} {pc : WorkPc}
    (h : Goes lockers w.op w.pc pc) : workMtx { w with pc := pc } = workMtx w := by
  have hold : workMtx w = none := by
    unfold workMtx
    generalize w.pc = pc₀ at h
    cases h <;> rfl
  rw [hold]
  cases pc with
  | lock | begin | unlock | done => rfl
  | visit a b body =>
    rw [workMtx_visit rfl, (h.visits rfl).2]
    cases w.op <;> rfl

theorem Moves.turn {b : BatchRef} {batch batch' : Batch} {obs : List ThreadObs}
    (h : Moves b batch batch' obs) :
    Turn b (.callback b) batch.mtx (callbackMtx b batch) batch'.mtx (callbackMtx b batch') := by
  unfold callbackMtx
  cases h with
  | lockMtx hpc hm | relock hpc hm =>
    rw [hpc, hm]
    exact .lock
  | sleep hpc | unlockMtx hpc =>
    rw [hpc]
    exact .unlock _
  | test hpc =>
    by_cases hack : batch.record.clientStatus = .msgConsumeAck
    · simp only [hpc, hack, if_true]
      exact .keep _ _
    · simp only [hpc, hack, if_false]
      exact .keep _ _
  | readStatus hpc =>
    by_cases hlater : batch.record.status = .reconsumeLater
    · simp only [hpc, hlater, if_true]
      exact .keep _ _
    · simp only [hpc, hlater, if_false]
      exact .keep _ _
  | readReconsume hpc | readEnd hpc | readResult hpc =>
    rw [hpc]
    exact .keep _ _

theorem Acts.mtx_eq {c : WorkRef} {w w' : Work} {b : BatchRef} {batch batch' : Batch}
    {action : Action} {obs : List ThreadObs} (h : Acts c w b batch action w' batch' obs)
    (hl : action ≠ .lockMtx) (hu : action ≠ .unlockMtx) : batch'.mtx = batch.mtx := by
  cases h with
  | none | write | found | popNone | pop => rfl
  | notify => exact wake_mtx batch
  | lockMtx => exact absurd rfl hl
  | unlockMtx => exact absurd rfl hu

theorem Acts.turn {c : WorkRef} {w w' : Work} {a : Addr} {b : BatchRef} {pc : BodyPc}
    {batch batch' : Batch} {obs : List ThreadObs} (hpc : w.pc = .visit a b pc)
    (h : Acts c { w with pc := .visit a b (pc.next batch.record) } b batch pc.action
      w' batch' obs) :
    Turn b (.worker c) batch.mtx (workMtx w) batch'.mtx (workMtx w') := by
  rw [workMtx_visit hpc, workMtx_visit h.work.2]
  rcases pc.mtx_cases with rfl | rfl | ⟨taken, rfl⟩ | ⟨hpc', hout, hl, hu⟩
  · cases h with
    | lockMtx hm => exact hm ▸ .lock
  · exact h.mtx_eq (by simp [BodyPc.action]) (by simp [BodyPc.action]) ▸ .keep _ _
  · have hnext : ((BodyPc.unlockMtx taken).next batch.record).holdsMtx = false := by
      simpa using BodyPc.holdsMtx_next batch.record (.unlockMtx taken)
    rw [hnext]
    cases h with
    | unlockMtx => exact .unlock _
  · have hnext : (pc.next batch.record).holdsMtx = false := by
      simpa [hpc'] using BodyPc.holdsMtx_next batch.record pc
    rw [hnext, hout, h.mtx_eq hl hu]
    exact .keep _ _

section Owned

variable {s s' : UnitThreads} {c : WorkRef} {w w' : Work} {b : BatchRef} {batch batch' : Batch}

theorem owned_setWork (ho : Owned s.owner s.heldMtx) (hc : s.works[c]? = some w)
    (hm : workMtx w' = workMtx w) : Owned (s.setWork c w').owner (s.setWork c w').heldMtx := by
  rw [heldMtx, view_setWork_of_eq hc hm]
  exact ho

theorem owned_setBatch (ho : Owned s.owner s.heldMtx) (hb : s.batches[b]? = some batch)
    (ht : Turn b (.callback b) batch.mtx (callbackMtx b batch) batch'.mtx
      (callbackMtx b batch')) : Owned (s.setBatch b batch').owner (s.setBatch b batch').heldMtx := by
  rw [heldMtx, view_setBatch hb, owner_setBatch hb]
  exact ho.turn (by rwa [owner_batch hb, heldMtx, view_callback hb])

theorem owned_act (ho : Owned s.owner s.heldMtx) (hc : s.works[c]? = some w)
    (hb : s.batches[b]? = some batch) (hpc : callbackMtx b batch' = callbackMtx b batch)
    (ht : Turn b (.worker c) batch.mtx (workMtx w) batch'.mtx (workMtx w')) :
    Owned ((s.setWork c w').setBatch b batch').owner
      ((s.setWork c w').setBatch b batch').heldMtx := by
  have hb' : (s.setWork c w').batches[b]? = some batch := hb
  rw [heldMtx, view_setBatch_of_eq hb' hpc, view_setWork hc, owner_setBatch hb']
  exact ho.turn (by rwa [owner_batch hb, heldMtx, view_worker hc])

/-- Every step is a turn of its thread at the `mtx` of one batch. -/
theorem Step.owned {e : ThreadEvent} (h : Step s e s') (ho : Owned s.owner s.heldMtx) :
    Owned s'.owner s'.heldMtx := by
  cases h with
  | @callback addr msgs =>
    have hout (b : BatchRef) : callbackMtx b (.new s.group addr msgs) = none := rfl
    rw [heldMtx, view_append_batch hout, owner_append_batch rfl]
    exact ho
  | @call op =>
    have hout : workMtx (.new op) = none := rfl
    rw [heldMtx, view_append_work hout]
    exact ho
  | @wake b batch hb =>
    refine owned_setBatch ho hb ?_
    rw [wake_mtx, callbackMtx_of_pc (wake_batch batch).2.2]
    exact .keep _ _
  | @workLock c w m hc hpc =>
    exact owned_setWork ho hc (by rw [workMtx, workMtx, hpc])
  | @workUnlock c w hc hpc =>
    exact owned_setWork ho hc (by rw [workMtx, workMtx, hpc])
  | @go c w pc hc hgo =>
    exact owned_setWork ho hc (workMtx_of_goes hgo)
  | @act c w w' a b pc batch batch' obs hc hpc hb ha =>
    exact owned_act ho hc hb (callbackMtx_of_pc ha.stays.2.2) (ha.turn hpc)
  | @callbackLock b batch pc m hb hpc hl =>
    refine owned_setBatch ho hb ?_
    have hm : callbackMtx b { batch with pc := pc } = callbackMtx b batch := by
      rcases hpc with ⟨hpc, rfl⟩ | ⟨hpc, rfl⟩ <;> rw [callbackMtx, callbackMtx, hpc] <;> rfl
    exact hm ▸ .keep _ _
  | @callbackUnlock b batch pc hb hpc =>
    refine owned_setBatch ho hb ?_
    have hm : callbackMtx b { batch with pc := pc } = callbackMtx b batch := by
      rcases hpc with ⟨hpc, rfl⟩ | ⟨hpc, rfl⟩ <;> rw [callbackMtx, callbackMtx, hpc] <;> rfl
    exact hm ▸ .keep _ _
  | @insert b batch hb hpc =>
    refine owned_setBatch ho hb ?_
    rw [callbackMtx, callbackMtx, hpc]
    exact .keep _ _
  | @erase b batch hb hpc =>
    refine owned_setBatch ho hb ?_
    rw [callbackMtx, callbackMtx, hpc]
    exact .keep _ _
  | move hb hm => exact owned_setBatch ho hb hm.turn

end Owned

theorem owned {group : String} {s : UnitThreads} (h : Reachable group s) :
    Owned s.owner s.heldMtx := by
  refine h.invariant (I := fun s => Owned s.owner s.heldMtx) ?_
    fun _ _ _ _ ho _ hs => (step_cases hs).owned ho
  intro b t
  cases t <;> simp [owner, heldMtx, view, init]

end UnitThreads
end RocketmqProxy
