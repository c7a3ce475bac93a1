import RocketmqProxy.Lib.Heap
import RocketmqProxy.Lib.TreeMap
import RocketmqProxy.Threads.Step

/-!
# What the lock of the map protects

A thread that walks the batches holds `lockersMtx`, so no batch is erased under it: the
batch it visits is registered, and the callback of a registered batch has not come to the
end of `eraseLock`.
-/

namespace RocketmqProxy

/-- The callback is between its insertion and its erasure. -/
def CallbackPc.Registered : CallbackPc → Prop
  | .lockMtx | .unlock | .test | .sleep | .asleep | .woken | .unlockMtx | .lockErase
  | .erase => True
  | _ => False

namespace UnitThreads

open Std (TreeMap)
open SharedMutex (Exact Mode Respects)

def workMode (w : Work) : Option Mode := if w.pc.Inside then some w.op.mode else none

def callbackMode (batch : Batch) : Option Mode :=
  if batch.pc.Inside then some .exclusive else none

/-- How a thread holds `lockersMtx`, to go by where it is. -/
def mode (s : UnitThreads) : Tid → Option Mode
  | .worker c => s.works[c]?.bind workMode
  | .callback b => s.batches[b]?.bind callbackMode

/-- What the calls and the batches say of their threads. -/
def view {β : Type} (s : UnitThreads) (f : Work → Option β) (g : BatchRef → Batch → Option β) :
    Tid → Option β
  | .worker c => s.works[c]?.bind f
  | .callback b => s.batches[b]?.bind (g b)

section View

variable {β : Type} {s : UnitThreads} {f : Work → Option β} {g : BatchRef → Batch → Option β}
  {c : WorkRef} {w : Work} {b : BatchRef} {batch : Batch}

theorem view_worker (hc : s.works[c]? = some w) : s.view f g (.worker c) = f w := by
  rw [view, hc, Option.bind_some]

theorem view_callback (hb : s.batches[b]? = some batch) :
    s.view f g (.callback b) = g b batch := by
  rw [view, hb, Option.bind_some]

theorem view_setWork (hc : s.works[c]? = some w) (w' : Work) :
    (s.setWork c w').view f g = Function.update (s.view f g) (.worker c) (f w') := by
  funext t
  cases t with
  | callback b => rw [Function.update_of_ne (by simp)]; rfl
  | worker c' =>
    by_cases heq : c' = c
    · subst heq
      rw [Function.update_self, view_worker (Heap.set_self hc w')]
    · rw [Function.update_of_ne (by simpa using heq), view, setWork,
        List.getElem?_set_ne (Ne.symm heq)]
      rfl

theorem view_setBatch (hb : s.batches[b]? = some batch) (batch' : Batch) :
    (s.setBatch b batch').view f g = Function.update (s.view f g) (.callback b) (g b batch') := by
  funext t
  cases t with
  | worker c => rw [Function.update_of_ne (by simp)]; rfl
  | callback b' =>
    by_cases heq : b' = b
    · subst heq
      rw [Function.update_self, view_callback (Heap.set_self hb batch')]
    · rw [Function.update_of_ne (by simpa using heq), view, setBatch,
        List.getElem?_set_ne (Ne.symm heq)]
      rfl

theorem view_setWork_of_eq (hc : s.works[c]? = some w) {w' : Work} (hf : f w' = f w) :
    (s.setWork c w').view f g = s.view f g := by
  rw [view_setWork hc, hf, Function.update_eq_self_iff, view_worker hc]

theorem view_setBatch_of_eq (hb : s.batches[b]? = some batch) {batch' : Batch}
    (hg : g b batch' = g b batch) : (s.setBatch b batch').view f g = s.view f g := by
  rw [view_setBatch hb, hg, Function.update_eq_self_iff, view_callback hb]

theorem view_append_work {op : Op} (hf : f (.new op) = none) :
    view { s with works := s.works ++ [.new op] } f g = s.view f g := by
  funext t
  cases t with
  | callback b => rfl
  | worker c => exact Heap.bind_append hf s.works c

theorem view_append_batch {batch : Batch} (hg : ∀ b, g b batch = none) :
    view { s with batches := s.batches ++ [batch] } f g = s.view f g := by
  funext t
  cases t with
  | callback b => exact Heap.bind_append (hg b) s.batches b
  | worker c => rfl

end View

section Mode

variable {s : UnitThreads} {c : WorkRef} {w w' : Work} {b : BatchRef} {batch batch' : Batch}

theorem mode_eq_view (s : UnitThreads) : s.mode = s.view workMode fun _ => callbackMode := by
  funext t
  cases t <;> rfl

theorem mode_worker (hc : s.works[c]? = some w) : s.mode (.worker c) = workMode w := by
  rw [mode_eq_view, view_worker hc]

theorem mode_callback (hb : s.batches[b]? = some batch) :
    s.mode (.callback b) = callbackMode batch := by
  rw [mode_eq_view, view_callback hb]

theorem mode_setWork (hc : s.works[c]? = some w) :
    (s.setWork c w').mode = Function.update s.mode (.worker c) (workMode w') := by
  rw [mode_eq_view, mode_eq_view, view_setWork hc]

theorem mode_setBatch (hb : s.batches[b]? = some batch) :
    (s.setBatch b batch').mode =
      Function.update s.mode (.callback b) (callbackMode batch') := by
  rw [mode_eq_view, mode_eq_view, view_setBatch hb]

theorem mode_setWork_of_eq (hc : s.works[c]? = some w) (hm : workMode w' = workMode w) :
    (s.setWork c w').mode = s.mode := by
  rw [mode_eq_view, mode_eq_view, view_setWork_of_eq hc hm]

theorem mode_setBatch_of_eq (hb : s.batches[b]? = some batch)
    (hm : callbackMode batch' = callbackMode batch) : (s.setBatch b batch').mode = s.mode := by
  rw [mode_eq_view, mode_eq_view, view_setBatch_of_eq hb hm]

theorem mode_append_work (op : Op) :
    mode { s with works := s.works ++ [.new op] } = s.mode := by
  rw [mode_eq_view, mode_eq_view, view_append_work rfl]

theorem mode_append_batch (group : String) (addr : Addr) (msgs : List (Addr × MQMessageExt)) :
    mode { s with batches := s.batches ++ [.new group addr msgs] } = s.mode := by
  rw [mode_eq_view, mode_eq_view, view_append_batch fun _ => rfl]

end Mode

/-! ## What the parts of a step leave alone -/

theorem wake_batch (batch : Batch) :
    batch.wake.addr = batch.addr ∧ batch.wake.msgs = batch.msgs ∧
      (batch.wake.pc = batch.pc ∨ batch.pc = .asleep ∧ batch.wake.pc = .woken) := by
  unfold Batch.wake
  split
  · next ha => exact ⟨rfl, rfl, .inr ⟨ha, rfl⟩⟩
  · exact ⟨rfl, rfl, .inl rfl⟩

theorem Goes.inside {lockers : TreeMap Addr BatchRef} {op : Op} {pc pc' : WorkPc}
    (h : Goes lockers op pc pc') : pc.Inside ∧ pc'.Inside := by
  have hvisit (o : Option (Addr × BatchRef)) : (visitAt op o).Inside := by
    cases o <;> exact trivial
  cases h with
  | begin => exact ⟨trivial, hvisit _⟩
  | iterNext => exact ⟨trivial, hvisit _⟩
  | «break» => exact ⟨trivial, trivial⟩

theorem wake_record (batch : Batch) : batch.wake.record = batch.record := by
  unfold Batch.wake
  split <;> rfl

section Acts

variable {c : WorkRef} {w w' : Work} {b : BatchRef} {batch batch' : Batch}
  {action : Action} {obs : List ThreadObs}

theorem Acts.work (h : Acts c w b batch action w' batch' obs) :
    w'.op = w.op ∧ w'.pc = w.pc := by
  cases h <;> exact ⟨rfl, rfl⟩

/-- A callback is moved by another thread in its sleep only. -/
theorem Acts.stays (h : Acts c w b batch action w' batch' obs) :
    batch'.addr = batch.addr ∧ batch'.msgs = batch.msgs ∧
      (batch'.pc = batch.pc ∨ batch.pc = .asleep ∧ batch'.pc = .woken) := by
  cases h with
  | none | write | found | lockMtx | unlockMtx | popNone | pop => exact ⟨rfl, rfl, .inl rfl⟩
  | notify => exact wake_batch batch

end Acts

theorem callbackMode_of_pc {batch batch' : Batch}
    (h : batch'.pc = batch.pc ∨ batch.pc = .asleep ∧ batch'.pc = .woken) :
    callbackMode batch' = callbackMode batch := by
  rcases h with h | ⟨h, h'⟩
  · rw [callbackMode, callbackMode, h]
  · rw [callbackMode, callbackMode, h, h']
    rfl

theorem Moves.record {b : BatchRef} {batch batch' : Batch} {obs : List ThreadObs}
    (h : Moves b batch batch' obs) : batch'.record = batch.record := by
  cases h <;> rfl

theorem Moves.inside {b : BatchRef} {batch batch' : Batch} {obs : List ThreadObs}
    (h : Moves b batch batch' obs) : callbackMode batch' = callbackMode batch := by
  unfold callbackMode
  cases h with
  | lockMtx hpc | sleep hpc | relock hpc | unlockMtx hpc | readReconsume hpc | readEnd hpc
  | readResult hpc => rw [hpc]; rfl
  | test hpc | readStatus hpc =>
    rw [hpc]
    split <;> rfl

/-! ## The lock -/

theorem Step.exact {s s' : UnitThreads} {e : ThreadEvent} (h : Step s e s')
    (hx : Exact s.lockersMtx s.mode) : Exact s'.lockersMtx s'.mode := by
  cases h with
  | callback => exact (mode_append_batch _ _ _).symm ▸ hx
  | call => exact (mode_append_work _).symm ▸ hx
  | wake hb => exact (mode_setBatch_of_eq hb (callbackMode_of_pc (wake_batch _).2.2)).symm ▸ hx
  | @workLock c w m hc hpc hl =>
    have hout : s.mode (.worker c) = none := by
      rw [mode_worker hc, workMode, hpc]
      rfl
    exact (mode_setWork hc).symm ▸ hx.lock hout hl
  | @workUnlock c w hc hpc =>
    have hin : s.mode (.worker c) = some w.op.mode := by
      rw [mode_worker hc, workMode, hpc]
      rfl
    exact (mode_setWork hc).symm ▸ hx.unlock hin
  | @go c w pc hc hgo =>
    have hmode : workMode { w with pc := pc } = workMode w := by
      simp [workMode, hgo.inside.1, hgo.inside.2]
    exact (mode_setWork_of_eq hc hmode).symm ▸ hx
  | @act c w w' a b pc batch batch' obs hc hpc hb ha =>
    have hmode : workMode w' = workMode w := by
      simp [workMode, ha.work.1, ha.work.2, hpc, WorkPc.Inside]
    have hset : ((s.setWork c w').setBatch b batch').mode = s.mode :=
      (mode_setBatch_of_eq (s := s.setWork c w') hb (callbackMode_of_pc ha.stays.2.2)).trans
        (mode_setWork_of_eq hc hmode)
    exact hset.symm ▸ hx
  | @callbackLock b batch pc m hb hpc hl =>
    have hmode : callbackMode { batch with pc := pc } = some .exclusive := by
      rcases hpc with ⟨-, rfl⟩ | ⟨-, rfl⟩ <;> rfl
    have hout : s.mode (.callback b) = none := by
      rw [mode_callback hb, callbackMode]
      rcases hpc with ⟨hpc, -⟩ | ⟨hpc, -⟩ <;> rw [hpc] <;> rfl
    exact (mode_setBatch hb).symm ▸ hmode.symm ▸ hx.lock hout hl
  | @callbackUnlock b batch pc hb hpc =>
    have hmode : callbackMode { batch with pc := pc } = none := by
      rcases hpc with ⟨-, rfl⟩ | ⟨-, rfl⟩ <;> rfl
    have hin : s.mode (.callback b) = some .exclusive := by
      rw [mode_callback hb, callbackMode]
      rcases hpc with ⟨hpc, -⟩ | ⟨hpc, -⟩ <;> rw [hpc] <;> rfl
    exact (mode_setBatch hb).symm ▸ hmode.symm ▸ hx.unlock hin
  | @insert b batch hb hpc | @erase b batch hb hpc =>
    refine (mode_setBatch_of_eq hb ?_).symm ▸ hx
    rw [callbackMode, callbackMode, hpc]
    rfl
  | move hb hm => exact (mode_setBatch_of_eq hb hm.inside).symm ▸ hx

theorem exact_mode {group : String} {s : UnitThreads} (h : Reachable group s) :
    Exact s.lockersMtx s.mode := by
  refine h.invariant (I := fun s => Exact s.lockersMtx s.mode) ?_
    fun _ _ _ _ hx _ hs => (step_cases hs).exact hx
  exact .free fun t => by cases t <;> rfl

theorem respects {group : String} {s : UnitThreads} (h : Reachable group s) :
    Respects s.lockersMtx s.mode := (exact_mode h).respects

/-! ## The map -/

/-- What the map says of the batches, and the iterators of the map. -/
structure Registry (s : UnitThreads) : Prop where
  visits : ∀ (c : WorkRef) (w : Work) (a : Addr) (b : BatchRef) (pc : BodyPc),
    s.works[c]? = some w → w.pc = .visit a b pc → s.lockers[a]? = some b
  registered : ∀ (a : Addr) (b : BatchRef), s.lockers[a]? = some b →
    ∃ batch, s.batches[b]? = some batch ∧ batch.addr = a ∧ batch.pc.Registered

/-- A walk that goes on is at the start of the body, at an entry of the map. -/
theorem Goes.visits {lockers : TreeMap Addr BatchRef} {op : Op} {pc pc' : WorkPc} {a : Addr}
    {b : BatchRef} {body : BodyPc} (h : Goes lockers op pc pc') (hpc : pc' = .visit a b body) :
    lockers[a]? = some b ∧ body = op.body := by
  have hvisit {o : Option (Addr × BatchRef)} (ho : ∀ p, o = some p → lockers[p.1]? = some p.2)
      (he : visitAt op o = .visit a b body) : lockers[a]? = some b ∧ body = op.body := by
    cases o with
    | none => cases he
    | some p =>
      obtain ⟨rfl, rfl, rfl⟩ := WorkPc.visit.inj he
      exact ⟨ho p rfl, rfl⟩
  cases h with
  | begin => exact hvisit (fun p => Iterator.getElem?_of_first) hpc
  | iterNext => exact hvisit (fun p => Iterator.getElem?_of_next) hpc
  | «break» => cases hpc

theorem Moves.registered {b : BatchRef} {batch batch' : Batch} {obs : List ThreadObs}
    (h : Moves b batch batch' obs) (hr : batch.pc.Registered) :
    batch'.addr = batch.addr ∧ batch'.pc.Registered := by
  cases h with
  | lockMtx | sleep | relock | unlockMtx => exact ⟨rfl, trivial⟩
  | test =>
    refine ⟨rfl, ?_⟩
    split <;> exact trivial
  | readStatus hpc | readReconsume hpc | readEnd hpc | readResult hpc =>
    rw [hpc] at hr
    exact hr.elim

section Registry

variable {s s' : UnitThreads}

/-- The map is as it was, every iterator stands in it, and no registered batch has left. -/
theorem Registry.keep (hr : Registry s) (hl : s'.lockers = s.lockers)
    (hw : ∀ (c : WorkRef) (w : Work) (a : Addr) (b : BatchRef) (pc : BodyPc),
      s'.works[c]? = some w → w.pc = .visit a b pc → s.lockers[a]? = some b)
    (hb : ∀ (b : BatchRef) (batch : Batch), s.batches[b]? = some batch → batch.pc.Registered →
      ∃ batch', s'.batches[b]? = some batch' ∧ batch'.addr = batch.addr ∧
        batch'.pc.Registered) : Registry s' := by
  refine ⟨fun c w a b pc hc hpc => hl ▸ hw c w a b pc hc hpc, fun a b ha => ?_⟩
  obtain ⟨batch, hbatch, haddr, hreg⟩ := hr.registered a b (hl ▸ ha)
  obtain ⟨batch', hbatch', haddr', hreg'⟩ := hb b batch hbatch hreg
  exact ⟨batch', hbatch', haddr'.trans haddr, hreg'⟩

/-- A write to one call, the iterator of which stands in the map. -/
theorem Registry.visits_set (hr : Registry s) {c : WorkRef} {w : Work}
    (hw : ∀ (a : Addr) (b : BatchRef) (pc : BodyPc), w.pc = .visit a b pc →
      s.lockers[a]? = some b) {c' : WorkRef} {w' : Work} {a : Addr} {b : BatchRef} {pc : BodyPc}
    (hc : (s.works.set c w)[c']? = some w') (hpc : w'.pc = .visit a b pc) :
    s.lockers[a]? = some b := by
  rcases Heap.of_set hc with ⟨-, rfl⟩ | hc
  · exact hw a b pc hpc
  · exact hr.visits c' w' a b pc hc hpc

/-- A write to one batch, which does not leave. -/
theorem registered_set {b : BatchRef} {batch : Batch} (batch' : Batch)
    (hb : s.batches[b]? = some batch)
    (hreg : batch.pc.Registered → batch'.addr = batch.addr ∧ batch'.pc.Registered)
    {b' : BatchRef} {x : Batch} (hx : s.batches[b']? = some x) (hr : x.pc.Registered) :
    ∃ y, (s.batches.set b batch')[b']? = some y ∧ y.addr = x.addr ∧ y.pc.Registered := by
  have hcases : _ ∨ (s.batches.set b batch')[b']? = some x := Heap.set_cases hb hx
  rcases hcases with ⟨-, rfl, hset⟩ | hset
  · exact ⟨batch', hset, hreg hr⟩
  · exact ⟨x, hset, rfl, hr⟩

theorem registered_of_pc {batch batch' : Batch}
    (h : batch'.pc = batch.pc ∨ batch.pc = .asleep ∧ batch'.pc = .woken)
    (hr : batch.pc.Registered) : batch'.pc.Registered := by
  rcases h with h | ⟨-, h⟩
  · exact h ▸ hr
  · exact h ▸ trivial

/-- Nobody walks the map while a callback holds the lock. -/
theorem no_visit_of_inside (hresp : Respects s.lockersMtx s.mode) {b : BatchRef} {batch : Batch}
    (hb : s.batches[b]? = some batch) (hpc : batch.pc.Inside) {c : WorkRef} {w : Work}
    (hc : s.works[c]? = some w) : ¬ w.pc.Inside := by
  intro hin
  have hcall : s.mode (.callback b) = some .exclusive := by
    rw [mode_callback hb, callbackMode, if_pos hpc]
  have hwork : s.mode (.worker c) = some w.op.mode := by
    rw [mode_worker hc, workMode, if_pos hin]
  cases hresp.eq_of_exclusive hcall hwork

theorem Step.registry {e : ThreadEvent} (h : Step s e s')
    (hresp : Respects s.lockersMtx s.mode) (hr : Registry s) : Registry s' := by
  have hsame (b : BatchRef) (batch : Batch) (hb : s.batches[b]? = some batch)
      (hreg : batch.pc.Registered) :
      ∃ batch', s.batches[b]? = some batch' ∧ batch'.addr = batch.addr ∧
        batch'.pc.Registered := ⟨batch, hb, rfl, hreg⟩
  cases h with
  | callback =>
    exact hr.keep rfl hr.visits fun b batch hb hreg =>
      ⟨batch, Heap.append_old hb _, rfl, hreg⟩
  | call =>
    refine hr.keep rfl (fun c w a b pc hc hpc => ?_) hsame
    rcases Heap.of_append hc with ⟨-, rfl⟩ | hc
    · cases hpc
    · exact hr.visits c w a b pc hc hpc
  | @wake b batch hb ha =>
    obtain ⟨haddr, -, hpc⟩ := wake_batch batch
    exact hr.keep rfl hr.visits fun _ _ hx hreg =>
      registered_set _ hb (fun hreg => ⟨haddr, registered_of_pc hpc hreg⟩) hx hreg
  | workLock hc | workUnlock hc =>
    exact hr.keep rfl (fun _ _ _ _ _ hc' hpc => hr.visits_set (fun _ _ _ he => by cases he)
      hc' hpc) hsame
  | @go c w pc hc hgo =>
    refine hr.keep rfl (fun _ _ _ _ _ hc' hpc => hr.visits_set (fun a b body he => ?_) hc' hpc)
      hsame
    exact (hgo.visits he).1
  | @act c w w' a b pc batch batch' obs hc hpc hb ha =>
    refine hr.keep rfl (fun _ _ _ _ _ hc' hpc' => hr.visits_set (fun a' b' body he => ?_)
      hc' hpc') fun _ _ hx hreg => registered_set _ hb (fun hreg =>
        ⟨ha.stays.1, registered_of_pc ha.stays.2.2 hreg⟩) hx hreg
    rw [ha.work.2] at he
    obtain ⟨rfl, rfl, -⟩ := WorkPc.visit.inj he
    exact hr.visits c w a b pc hc hpc
  | @callbackLock b batch pc m hb hpc =>
    have hstay (hreg : batch.pc.Registered) : pc.Registered := by
      rcases hpc with ⟨hpc, -⟩ | ⟨-, rfl⟩
      · rw [hpc] at hreg
        exact hreg.elim
      · exact trivial
    exact hr.keep rfl hr.visits fun _ _ hx hreg =>
      registered_set { batch with pc := pc } hb (fun hreg => ⟨rfl, hstay hreg⟩) hx hreg
  | @callbackUnlock b batch pc hb hpc =>
    have hstay (hreg : batch.pc.Registered) : pc.Registered := by
      rcases hpc with ⟨-, rfl⟩ | ⟨hpc, -⟩
      · exact trivial
      · rw [hpc] at hreg
        exact hreg.elim
    exact hr.keep rfl hr.visits fun _ _ hx hreg =>
      registered_set { batch with pc := pc } hb (fun hreg => ⟨rfl, hstay hreg⟩) hx hreg
  | @insert b batch hb hpc =>
    refine ⟨fun c w a b' pc hc hpc' => ?_, fun a b' ha => ?_⟩
    · have hold := hr.visits c w a b' pc hc hpc'
      rw [TreeMapLoop.getElem?_insertIfNew, hold]
      split <;> rfl
    · have hnew : ∃ batch', (s.batches.set b { batch with pc := .lockMtx })[b]? = some batch' ∧
          batch'.addr = batch.addr ∧ batch'.pc.Registered :=
        ⟨_, Heap.set_self hb _, rfl, trivial⟩
      have hold (ha : s.lockers[a]? = some b') :
          ∃ batch', (s.batches.set b { batch with pc := .lockMtx })[b']? = some batch' ∧
            batch'.addr = a ∧ batch'.pc.Registered := by
        obtain ⟨x, hx, rfl, hreg⟩ := hr.registered a b' ha
        exact registered_set { batch with pc := .lockMtx } hb
          (fun _ => ⟨rfl, trivial⟩) hx hreg
      rw [TreeMapLoop.getElem?_insertIfNew] at ha
      split at ha
      · next haddr =>
        obtain rfl := haddr
        cases hlook : s.lockers[batch.addr]? with
        | none =>
          rw [hlook] at ha
          obtain rfl : b = b' := Option.some.inj ha
          exact hnew
        | some b₀ =>
          rw [hlook] at ha
          obtain rfl : b₀ = b' := Option.some.inj ha
          exact hold hlook
      · exact hold ha
  | @erase b batch hb hpc =>
    refine ⟨fun c w a b' pc hc hpc' => ?_, fun a b' ha => ?_⟩
    · have hin : batch.pc.Inside := hpc ▸ trivial
      exact absurd (hpc' ▸ trivial) (no_visit_of_inside hresp hb hin hc)
    · rw [TreeMap.getElem?_erase] at ha
      obtain ⟨hne, ha⟩ := Option.ite_none_left_eq_some.mp ha
      obtain ⟨x, hx, rfl, hreg⟩ := hr.registered a b' ha
      have hb' : b ≠ b' := by
        rintro rfl
        obtain rfl := Option.some.inj (hb.symm.trans hx)
        exact hne (by simp)
      exact ⟨x, (List.getElem?_set_ne hb').trans hx, rfl, hreg⟩
  | @move b batch batch' obs hb hm =>
    exact hr.keep rfl hr.visits fun _ _ hx hreg => registered_set _ hb hm.registered hx hreg

end Registry

theorem registry {group : String} {s : UnitThreads} (h : Reachable group s) : Registry s := by
  refine h.invariant (I := Registry) ⟨?_, ?_⟩ fun _ _ _ hr hi _ hs =>
    (step_cases hs).registry (respects hr) hi
  · intro c w a b pc hc
    cases hc
  · intro a b ha
    exact absurd ha (by simp [init])

end UnitThreads
end RocketmqProxy
