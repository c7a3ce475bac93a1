import RocketmqProxy.Locker.Spec
import RocketmqProxy.Threads.Locks

/-!
# What a step adds to the trace

A batch keeps what its messages are filed under, a call keeps what it is, and every entry
of the trace says where the thread that made it stood.
-/

namespace RocketmqProxy

/-- The callback has begun to compute what it returns. -/
def CallbackPc.Computes : CallbackPc → Prop
  | .readReconsume _ _ | .readResult _ | .returned _ _ => True
  | _ => False

theorem CallbackPc.Registered.not_computes {pc : CallbackPc} (h : pc.Registered) :
    ¬ pc.Computes := by
  cases pc <;> first | exact h.elim | exact id

namespace UnitThreads

open Std (TreeMap)

/-! ## What a step does to the batches -/

/-- The steps of a callback at `lockersMtx` and at the map. -/
inductive Walks : CallbackPc → CallbackPc → Prop
  | lock : Walks .lock .insert
  | insert : Walks .insert .lockMtx
  | unlock : Walks .unlock .test
  | lockErase : Walks .lockErase .erase
  | erase : Walks .erase .unlockErase
  | unlockErase : Walks .unlockErase .readStatus

/-- Where the batch at `b` after a step comes from. -/
inductive BatchCase (s s' : UnitThreads) (e : ThreadEvent) (b : BatchRef) (y : Batch) : Prop
  | same (hb : s.batches[b]? = some y)
  | new (group : String) (addr : Addr) (msgs : List (Addr × MQMessageExt))
      (hb : s.batches[b]? = none) (h : y = .new group addr msgs)
  | woken {x : Batch} (he : e = .wake b) (hb : s.batches[b]? = some x) (ha : x.pc = .asleep)
      (h : y = x.wake)
  | walked {x : Batch} {pc : CallbackPc} (hb : s.batches[b]? = some x) (hpc : Walks x.pc pc)
      (h : y = { x with pc := pc })
  | moved {x : Batch} {obs : List ThreadObs} (hb : s.batches[b]? = some x) (hm : Moves b x y obs)
      (ht : s'.trace = s.trace ++ obs)
  | acted {x : Batch} {c : WorkRef} {w w' : Work} {a : Addr} {pc : BodyPc} {obs : List ThreadObs}
      (he : e = .turn (.worker c)) (hc : s.works[c]? = some w) (hpc : w.pc = .visit a b pc)
      (hb : s.batches[b]? = some x)
      (ha : Acts c { w with pc := .visit a b (pc.next x.record) } b x pc.action w' y obs)
      (ht : s'.trace = s.trace ++ obs)

section Batches

variable {s s' : UnitThreads} {e : ThreadEvent} {b : BatchRef} {x y : Batch}

theorem Step.batch_cases (h : Step s e s') (hy : s'.batches[b]? = some y) :
    BatchCase s s' e b y := by
  cases h with
  | @callback addr msgs =>
    rcases Heap.of_append hy with ⟨rfl, rfl⟩ | hy
    · exact .new s.group addr msgs (by simp) rfl
    · exact .same hy
  | call | workLock | workUnlock | go => exact .same hy
  | wake hb ha =>
    rcases Heap.of_set hy with ⟨rfl, rfl⟩ | hy
    · exact .woken rfl hb ha rfl
    · exact .same hy
  | act hc hpc hb ha =>
    rcases Heap.of_set hy with ⟨rfl, rfl⟩ | hy
    · exact .acted rfl hc hpc hb ha rfl
    · exact .same hy
  | callbackLock hb hpc =>
    rcases Heap.of_set hy with ⟨rfl, rfl⟩ | hy
    · rcases hpc with ⟨hpc, rfl⟩ | ⟨hpc, rfl⟩
      · exact .walked hb (hpc ▸ .lock) rfl
      · exact .walked hb (hpc ▸ .lockErase) rfl
    · exact .same hy
  | callbackUnlock hb hpc =>
    rcases Heap.of_set hy with ⟨rfl, rfl⟩ | hy
    · rcases hpc with ⟨hpc, rfl⟩ | ⟨hpc, rfl⟩
      · exact .walked hb (hpc ▸ .unlock) rfl
      · exact .walked hb (hpc ▸ .unlockErase) rfl
    · exact .same hy
  | insert hb hpc =>
    rcases Heap.of_set hy with ⟨rfl, rfl⟩ | hy
    · exact .walked hb (hpc ▸ .insert) rfl
    · exact .same hy
  | erase hb hpc =>
    rcases Heap.of_set hy with ⟨rfl, rfl⟩ | hy
    · exact .walked hb (hpc ▸ .erase) rfl
    · exact .same hy
  | move hb hm =>
    rcases Heap.of_set hy with ⟨rfl, rfl⟩ | hy
    · exact .moved hb hm rfl
    · exact .same hy

theorem Step.batch_stays (h : Step s e s') (hx : s.batches[b]? = some x) :
    ∃ y, s'.batches[b]? = some y := by
  have hle : s.batches.length ≤ s'.batches.length := by
    cases h <;> simp [setBatch, setWork]
  exact ⟨_, List.getElem?_eq_getElem ((List.getElem?_eq_some_iff.mp hx).1.trans_le hle)⟩

end Batches

/-- A batch after a step, or after none. -/
structure Later (x y : Batch) : Prop where
  idMsgMap : y.record.idMsgMap = x.record.idMsgMap
  computes : x.pc.Computes → y.pc.Computes

/-- What is more, messages are fetched once, and a batch that is released stays so. -/
structure Ages (x y : Batch) : Prop extends Later x y where
  msgs : y.msgs = x.msgs
  fetchedArr : x.record.fetchedArr = [] → y.record.fetchedArr = []
  clientStatus : x.record.clientStatus = .msgConsumeAck → y.record.clientStatus = .msgConsumeAck

theorem Ages.refl (x : Batch) : Ages x x := ⟨⟨rfl, id⟩, rfl, id, id⟩

theorem Ages.of_record {x y : Batch} (hr : y.record = x.record) (hm : y.msgs = x.msgs)
    (hc : x.pc.Computes → y.pc.Computes) : Ages x y :=
  ⟨⟨by rw [hr], hc⟩, hm, by rw [hr]; exact id, by rw [hr]; exact id⟩

theorem computes_of_pc {x y : Batch} (h : y.pc = x.pc ∨ x.pc = .asleep ∧ y.pc = .woken)
    (hx : x.pc.Computes) : y.pc.Computes := by
  rcases h with h | ⟨h, -⟩
  · exact h ▸ hx
  · rw [h] at hx
    exact hx.elim

theorem Walks.not_computes {pc pc' : CallbackPc} (h : Walks pc pc') : ¬ pc.Computes := by
  cases h <;> exact id

/-- `clientStatus` is written in `triggerCheck` only, at the release. -/
theorem action_clientStatus {pc : BodyPc} {cs : ClientMsgConsumeStatus}
    (h : pc.action = .write (.clientStatus cs)) : pc = .releaseClient ∧ cs = .msgConsumeAck := by
  cases pc <;> simp_all [BodyPc.action]

theorem Acts.ages {c : WorkRef} {w w' : Work} {b : BatchRef} {batch batch' : Batch}
    {pc : BodyPc} {obs : List ThreadObs} (h : Acts c w b batch pc.action w' batch' obs) :
    Ages batch batch' := by
  have hpc := computes_of_pc h.stays.2.2
  generalize haction : pc.action = action at h
  cases h with
  | none | found | lockMtx | unlockMtx | popNone => exact .of_record rfl rfl hpc
  | write r =>
    cases r with
    | statusMap | clientStatusMap | reconsumeMap | status => exact ⟨⟨rfl, hpc⟩, rfl, id, id⟩
    | clientStatus cs =>
      exact ⟨⟨rfl, hpc⟩, rfl, id, fun _ => (action_clientStatus haction).2⟩
  | pop hg =>
    obtain ⟨rest, hfetched, rfl⟩ := ConsumerUnitLocker.getMsg_eq_some hg
    exact ⟨⟨rfl, hpc⟩, rfl, fun hnil => absurd (hfetched.symm.trans hnil) (by simp), id⟩
  | notify => exact .of_record (wake_record batch) (wake_batch batch).2.1 hpc

theorem Moves.ages {b : BatchRef} {batch batch' : Batch} {obs : List ThreadObs}
    (h : Moves b batch batch' obs) : Ages batch batch' := by
  cases h with
  | lockMtx hpc | sleep hpc | relock hpc | unlockMtx hpc | test hpc =>
    exact .of_record rfl rfl fun hx => by rw [hpc] at hx; exact hx.elim
  | readStatus hpc =>
    refine .of_record rfl rfl fun _ => ?_
    split <;> exact trivial
  | readReconsume | readEnd | readResult => exact .of_record rfl rfl fun _ => trivial

section Batches

variable {s s' : UnitThreads} {e : ThreadEvent} {b : BatchRef} {x y : Batch}

theorem Step.ages (h : Step s e s') (hx : s.batches[b]? = some x) :
    ∃ y, s'.batches[b]? = some y ∧ Ages x y := by
  obtain ⟨y, hy⟩ := h.batch_stays hx
  refine ⟨y, hy, ?_⟩
  cases h.batch_cases hy with
  | same hb =>
    obtain rfl := Option.some.inj (hb.symm.trans hx)
    exact .refl y
  | new _ _ _ hb => exact absurd (hb.symm.trans hx) (by simp)
  | woken _ hb ha hy =>
    obtain rfl := Option.some.inj (hb.symm.trans hx)
    exact hy ▸ .of_record (wake_record _) (wake_batch _).2.1 (computes_of_pc (wake_batch _).2.2)
  | walked hb hpc hy =>
    obtain rfl := Option.some.inj (hb.symm.trans hx)
    exact hy ▸ .of_record rfl rfl fun hc => absurd hc hpc.not_computes
  | moved hb hm =>
    obtain rfl := Option.some.inj (hb.symm.trans hx)
    exact hm.ages
  | acted _ _ _ hb ha =>
    obtain rfl := Option.some.inj (hb.symm.trans hx)
    exact ha.ages

theorem Step.later (h : Step s e s') (hx : s.batches[b]? = some x) :
    ∃ y, s'.batches[b]? = some y ∧ Later x y := by
  obtain ⟨y, hy, hages⟩ := h.ages hx
  exact ⟨y, hy, hages.toLater⟩

end Batches

/-! ## What a step does to the calls and the trace -/

theorem Acts.ret {c : WorkRef} {w w' : Work} {b : BatchRef} {batch batch' : Batch}
    {action : Action} {obs : List ThreadObs} (h : Acts c w b batch action w' batch' obs)
    (hret : w.ret = true) : w'.ret = true := by
  cases h with
  | found => rfl
  | none | write | lockMtx | unlockMtx | popNone | pop | notify => exact hret

/-- `ret` is set where the id is found. -/
theorem Acts.ret_cases {c : WorkRef} {w w' : Work} {b : BatchRef} {batch batch' : Batch}
    {action : Action} {obs : List ThreadObs} (h : Acts c w b batch action w' batch' obs)
    (hret : w'.ret = true) : w.ret = true ∨ .found c b ∈ obs := by
  cases h with
  | found => exact .inr (List.mem_singleton_self _)
  | none | write | lockMtx | unlockMtx | popNone | pop | notify => exact .inl hret

section Steps

variable {s s' : UnitThreads} {e : ThreadEvent}

theorem Step.work (h : Step s e s') {c : WorkRef} {w : Work} (hc : s.works[c]? = some w) :
    ∃ w', s'.works[c]? = some w' ∧ w'.op = w.op ∧ (w.ret = true → w'.ret = true) ∧
      (w.pc = .done → w' = w) := by
  have hsame : ∃ w', s.works[c]? = some w' ∧ w'.op = w.op ∧ (w.ret = true → w'.ret = true) ∧
      (w.pc = .done → w' = w) := ⟨w, hc, rfl, id, fun _ => rfl⟩
  have hset {c₀ : WorkRef} {w₀ w' : Work} (hc₀ : s.works[c₀]? = some w₀) (hop : w'.op = w₀.op)
      (hret : w₀.ret = true → w'.ret = true) (hpc : w₀.pc ≠ .done) :
      ∃ w'', (s.works.set c₀ w')[c]? = some w'' ∧ w''.op = w.op ∧
        (w.ret = true → w''.ret = true) ∧ (w.pc = .done → w'' = w) :=
    Heap.set_rel (R := fun x y => y.op = x.op ∧ (x.ret = true → y.ret = true) ∧
      (x.pc = .done → y = x)) hc₀ ⟨hop, hret, fun hd => absurd hd hpc⟩
      (fun _ => ⟨rfl, id, fun _ => rfl⟩) hc
  cases h with
  | callback | wake | callbackLock | callbackUnlock | insert | erase | move => exact hsame
  | call => exact ⟨w, Heap.append_old hc _, rfl, id, fun _ => rfl⟩
  | workLock hc₀ hpc | workUnlock hc₀ hpc => exact hset hc₀ rfl id (by simp [hpc])
  | @go c₀ w₀ pc hc₀ hgo =>
    refine hset hc₀ rfl id fun hd => ?_
    have hin := hgo.inside.1
    rw [hd] at hin
    exact hin
  | act hc₀ hpc hb ha =>
    exact hset hc₀ ha.work.1 ha.ret (by simp [hpc])

/-- The functions that have been called. -/
theorem Step.ops (h : Step s e s') :
    s'.works.map Work.op = s.works.map Work.op ∨
      ∃ op, e = .call op ∧ s'.works.map Work.op = s.works.map Work.op ++ [op] := by
  cases h with
  | callback | wake | callbackLock | callbackUnlock | insert | erase | move => exact .inl rfl
  | @call op => exact .inr ⟨op, rfl, by rw [List.map_append]; rfl⟩
  | workLock hc | workUnlock hc | go hc => exact .inl (Heap.map_set hc rfl)
  | act hc hpc hb ha => exact .inl (Heap.map_set hc ha.work.1)

/-- Where the call at `c` after a step comes from. -/
inductive WorkCase (s s' : UnitThreads) (c : WorkRef) (w' : Work) : Prop
  | same (hc : s.works[c]? = some w')
  | new (op : Op) (h : w' = .new op)
  | moved {w : Work} (hc : s.works[c]? = some w) (hop : w'.op = w.op) (hret : w'.ret = w.ret)
      (hbody : ∀ a b pc, w'.pc = .visit a b pc → pc = w.op.body)
  | acted {w : Work} {a : Addr} {b : BatchRef} {pc : BodyPc} {batch batch' : Batch}
      {obs : List ThreadObs} (hc : s.works[c]? = some w) (hpc : w.pc = .visit a b pc)
      (hb : s.batches[b]? = some batch)
      (ha : Acts c { w with pc := .visit a b (pc.next batch.record) } b batch pc.action
        w' batch' obs)
      (hb' : s'.batches[b]? = some batch') (ht : s'.trace = s.trace ++ obs)

theorem Step.work_cases (h : Step s e s') {c : WorkRef} {w' : Work}
    (hc : s'.works[c]? = some w') : WorkCase s s' c w' := by
  cases h with
  | callback | wake | callbackLock | callbackUnlock | insert | erase | move => exact .same hc
  | @call op =>
    rcases Heap.of_append hc with ⟨-, rfl⟩ | hc
    · exact .new op rfl
    · exact .same hc
  | workLock hc₀ | workUnlock hc₀ =>
    rcases Heap.of_set hc with ⟨rfl, rfl⟩ | hc
    · exact .moved hc₀ rfl rfl fun _ _ _ he => by cases he
    · exact .same hc
  | go hc₀ hgo =>
    rcases Heap.of_set hc with ⟨rfl, rfl⟩ | hc
    · exact .moved hc₀ rfl rfl fun a b pc he => (hgo.visits he).2
    · exact .same hc
  | act hc₀ hpc hb ha =>
    rcases Heap.of_set hc with ⟨rfl, rfl⟩ | hc
    · exact .acted hc₀ hpc hb ha (Heap.set_self hb _) rfl
    · exact .same hc

/-- What makes a step add an entry to the trace. -/
inductive Emitted (s s' : UnitThreads) : ThreadObs → Prop
  | wrote {c : WorkRef} {w : Work} {a : Addr} {b : BatchRef} {pc : BodyPc} (r : RecordWrite)
      (hc : s.works[c]? = some w) (hpc : w.pc = .visit a b pc) :
      Emitted s s' (.wrote (.worker c) b r)
  | found {c : WorkRef} {w : Work} {a : Addr} {b : BatchRef} (hc : s.works[c]? = some w)
      (hpc : w.pc = .visit a b .found) : Emitted s s' (.found c b)
  | fetched (c : WorkRef) (b : BatchRef) (msg : MsgPtr) : Emitted s s' (.fetched c b msg)
  | notified (c : WorkRef) (b : BatchRef) : Emitted s s' (.notified c b)
  | returned {c : WorkRef} {w : Work} (hc : s'.works[c]? = some w) (hpc : w.pc = .done) :
      Emitted s s' (.returned c w.ret)
  | slept (b : BatchRef) : Emitted s s' (.slept b)
  | verdict {b : BatchRef} {batch : Batch} (hb : s'.batches[b]? = some batch)
      (hpc : batch.pc.Computes) : Emitted s s' (.verdict b)

theorem Step.trace (h : Step s e s') :
    s'.trace = s.trace ∨ ∃ o, s'.trace = s.trace ++ [o] ∧ Emitted s s' o := by
  cases h with
  | callback | call | wake | workLock | go | callbackLock | callbackUnlock | insert | erase =>
    exact .inl rfl
  | @workUnlock c w hc =>
    exact .inr ⟨_, rfl, .returned (w := { w with pc := .done }) (Heap.set_self hc _) rfl⟩
  | @act c w w' a b pc batch batch' obs hc hpc hb ha =>
    generalize haction : pc.action = action at ha
    cases ha with
    | none | lockMtx | unlockMtx | popNone => exact .inl (List.append_nil _)
    | write r => exact .inr ⟨_, rfl, .wrote r hc hpc⟩
    | found =>
      cases pc <;> first | exact .inr ⟨_, rfl, .found hc hpc⟩ | cases haction
    | pop => exact .inr ⟨_, rfl, .fetched _ _ _⟩
    | notify => exact .inr ⟨_, rfl, .notified _ _⟩
  | @move b batch batch' obs hb hm =>
    cases hm with
    | lockMtx | test | relock | unlockMtx | readReconsume | readEnd | readResult =>
      exact .inl (List.append_nil _)
    | sleep => exact .inr ⟨_, rfl, .slept _⟩
    | readStatus =>
      refine .inr ⟨_, rfl, .verdict (Heap.set_self hb _) ?_⟩
      dsimp only
      split <;> exact trivial

/-- The step that makes an entry, but for the return of a call. -/
theorem Step.emits (h : Step s e s') {o : ThreadObs} (ht : s'.trace = s.trace ++ [o])
    (hret : ∀ c ret, o ≠ .returned c ret) :
    (∃ b x y, s.batches[b]? = some x ∧ Moves b x y [o]) ∨
    ∃ c w a b pc x w' y, e = .turn (.worker c) ∧ s.works[c]? = some w ∧
      w.pc = .visit a b pc ∧ s.batches[b]? = some x ∧ s'.batches[b]? = some y ∧
      Acts c { w with pc := .visit a b (pc.next x.record) } b x pc.action w' y [o] := by
  have hsame : s.trace ≠ s.trace ++ [o] := by simp
  cases h with
  | callback | call | wake | workLock | go | callbackLock | callbackUnlock | insert | erase =>
    exact absurd ht hsame
  | @workUnlock c w hc =>
    exact absurd (List.singleton_inj.mp (List.append_cancel_left ht)).symm (hret c w.ret)
  | act hc hpc hb ha =>
    obtain rfl := List.append_cancel_left ht
    exact .inr ⟨_, _, _, _, _, _, _, _, rfl, hc, hpc, hb, Heap.set_self hb _, ha⟩
  | move hb hm =>
    obtain rfl := List.append_cancel_left ht
    exact .inl ⟨_, _, _, hb, hm⟩

theorem Step.trace_subset (h : Step s e s') : s.trace ⊆ s'.trace := by
  rcases h.trace with ht | ⟨o, ht, -⟩
  · exact ht ▸ List.Subset.refl _
  · exact ht ▸ List.subset_append_left _ _

/-- An entry of the trace after a step is an old one, or the step has made it. -/
theorem Step.mem_trace (h : Step s e s') {o : ThreadObs} (ho : o ∈ s'.trace) :
    o ∈ s.trace ∨ Emitted s s' o := by
  rcases h.trace with ht | ⟨o', ht, hem⟩
  · exact .inl (ht ▸ ho)
  · rw [ht] at ho
    rcases List.mem_append.mp ho with ho | ho
    · exact .inl ho
    · obtain rfl := List.mem_singleton.mp ho
      exact .inr hem

/-! ## Invariants of the calls that visit a batch -/

/-- What is said of every call that is in the body of its loop: of the trace, of the call, of
the batch it visits, and of where it is in the body. -/
def Visits (s : UnitThreads)
    (Q : List ThreadObs → WorkRef → BatchRef → ConsumerUnitLocker → Op → BodyPc → Prop) : Prop :=
  ∀ (c : WorkRef) (w : Work) (a : Addr) (b : BatchRef) (pc : BodyPc) (batch : Batch),
    s.works[c]? = some w → w.pc = .visit a b pc → s.batches[b]? = some batch →
      Q s.trace c b batch.record w.op pc

/-- It holds at the start of the body, the step of the call keeps it, and so do those of the
others, after which the batch is older. -/
theorem Step.visits
    {Q : List ThreadObs → WorkRef → BatchRef → ConsumerUnitLocker → Op → BodyPc → Prop}
    (hbody : ∀ trace c b l op, Q trace c b l op op.body)
    (hact : ∀ (trace : List ThreadObs) (c : WorkRef) (b : BatchRef) (op : Op) (pc : BodyPc)
      (w w' : Work) (x y : Batch) (obs : List ThreadObs), Acts c w b x pc.action w' y obs →
        Q trace c b x.record op pc → Q (trace ++ obs) c b y.record op (pc.next x.record))
    (hage : ∀ (trace trace' : List ThreadObs) (c : WorkRef) (b : BatchRef) (op : Op) (pc : BodyPc)
      (x y : Batch), Ages x y → trace ⊆ trace' → Q trace c b x.record op pc →
        Q trace' c b y.record op pc)
    (h : Step s e s') (hr : Registry s) (hq : s.Visits Q) : s'.Visits Q := by
  intro c w a b pc batch hc hpc hb
  cases h.work_cases hc with
  | same hc =>
    obtain ⟨x, hx, -⟩ := hr.registered a b (hr.visits c w a b pc hc hpc)
    obtain ⟨y, hy, hages⟩ := h.ages hx
    obtain rfl := Option.some.inj (hb.symm.trans hy)
    exact hage _ _ c b w.op pc x batch hages h.trace_subset (hq c w a b pc x hc hpc hx)
  | new op hw =>
    rw [hw] at hpc
    cases hpc
  | moved hc hop hret hbody' =>
    obtain rfl := hbody' a b pc hpc
    rw [hop]
    exact hbody _ _ _ _ _
  | @acted w₀ _ _ _ _ _ _ hc₀ hpc₀ hb₀ ha hb' ht =>
    have hop : w.op = w₀.op := ha.work.1
    rw [ha.work.2] at hpc
    obtain ⟨rfl, rfl, rfl⟩ := WorkPc.visit.inj hpc
    obtain rfl := Option.some.inj (hb.symm.trans hb')
    rw [ht, hop]
    exact hact _ c _ _ _ _ _ _ _ _ ha (hq c w₀ _ _ _ _ hc₀ hpc₀ hb₀)

end Steps

end UnitThreads
end RocketmqProxy
