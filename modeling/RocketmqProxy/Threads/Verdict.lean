import RocketmqProxy.Threads.Trace

/-!
# No ack after the verdict

A callback reads its batch without a lock, after it has erased it from the map.  Every
write to a batch is made by a thread that visits it, and a batch that is visited is
registered, so all writes come before the erasure and thus before the reads.
-/

namespace RocketmqProxy
namespace UnitThreads

open Std (TreeMap)

/-! ## The order of the trace -/

/-- `o'` is not a write to a batch the verdict on which begins with `o`. -/
def NotAfter (o o' : ThreadObs) : Prop := ∀ b, o = .verdict b → ∀ t r, o' ≠ .wrote t b r

/-- No write follows a verdict, and what has a verdict has left the map. -/
structure Judged (s : UnitThreads) : Prop where
  order : s.trace.Pairwise NotAfter
  computes : ∀ b, .verdict b ∈ s.trace → ∃ batch, s.batches[b]? = some batch ∧ batch.pc.Computes

section Judged

variable {s s' : UnitThreads} {e : ThreadEvent}

/-- A batch that is visited has no verdict. -/
theorem Judged.no_verdict (hj : Judged s) (hr : Registry s) {c : WorkRef} {w : Work} {a : Addr}
    {b : BatchRef} {pc : BodyPc} (hc : s.works[c]? = some w) (hpc : w.pc = .visit a b pc) :
    .verdict b ∉ s.trace := by
  intro hmem
  obtain ⟨batch, hb, hcomp⟩ := hj.computes b hmem
  obtain ⟨batch', hb', -, hreg⟩ := hr.registered a b (hr.visits c w a b pc hc hpc)
  obtain rfl := Option.some.inj (hb.symm.trans hb')
  exact hreg.not_computes hcomp

theorem Step.judged (h : Step s e s') (hr : Registry s) (hj : Judged s) : Judged s' := by
  have hkeep (b : BatchRef) (hmem : .verdict b ∈ s.trace) :
      ∃ batch, s'.batches[b]? = some batch ∧ batch.pc.Computes := by
    obtain ⟨x, hx, hcomp⟩ := hj.computes b hmem
    obtain ⟨y, hy, hlater⟩ := h.later hx
    exact ⟨y, hy, hlater.computes hcomp⟩
  rcases h.trace with htrace | ⟨o, htrace, ho⟩
  · exact ⟨htrace ▸ hj.order, htrace ▸ hkeep⟩
  · refine ⟨?_, fun b hmem => ?_⟩
    · rw [htrace, List.pairwise_append]
      refine ⟨hj.order, List.pairwise_singleton _ _, ?_⟩
      rintro _ hmem _ ho' b rfl t r rfl
      obtain rfl := List.mem_singleton.mp ho'
      cases ho with
      | wrote _ hc hpc => exact hj.no_verdict hr hc hpc hmem
    · rw [htrace] at hmem
      rcases List.mem_append.mp hmem with hmem | hmem
      · exact hkeep b hmem
      · obtain rfl := List.mem_singleton.mp hmem
        cases ho with
        | verdict hb hpc => exact ⟨_, hb, hpc⟩

theorem judged {group : String} (h : Reachable group s) : Judged s :=
  h.invariant ⟨.nil, by simp [init]⟩ fun _ _ _ hr hj _ hs =>
    (step_cases hs).judged (registry hr) hj

/-- A step does not touch the record of a batch that has a verdict. -/
theorem Step.record (h : Step s e s') (hr : Registry s) (hj : Judged s) {b : BatchRef}
    (hmem : .verdict b ∈ s.trace) {x : Batch} (hx : s.batches[b]? = some x) :
    ∃ y, s'.batches[b]? = some y ∧ y.record = x.record := by
  have hset {b₀ : BatchRef} {x₀ y : Batch} (hb : s.batches[b₀]? = some x₀)
      (hrec : y.record = x₀.record) :
      ∃ y', (s.batches.set b₀ y)[b]? = some y' ∧ y'.record = x.record :=
    Heap.set_rel (R := fun x y => y.record = x.record) hb hrec (fun _ => rfl) hx
  cases h with
  | callback => exact ⟨x, Heap.append_old hx _, rfl⟩
  | call | workLock | workUnlock | go => exact ⟨x, hx, rfl⟩
  | wake hb => exact hset hb (wake_record _)
  | @act c w w' a b₀ pc batch batch' obs hc hpc hb ha =>
    have hcases : _ ∨ (s.batches.set b₀ batch')[b]? = some x := Heap.set_cases hb hx
    rcases hcases with ⟨rfl, -, -⟩ | hset
    · exact absurd hmem (hj.no_verdict hr hc hpc)
    · exact ⟨x, hset, rfl⟩
  | @callbackLock b₀ batch pc _ hb | @callbackUnlock b₀ batch pc hb =>
    exact hset (y := { batch with pc := pc }) hb rfl
  | @insert b₀ batch hb => exact hset (y := { batch with pc := .lockMtx }) hb rfl
  | @erase b₀ batch hb => exact hset (y := { batch with pc := .unlockErase }) hb rfl
  | move hb hm => exact hset hb hm.record

end Judged

/-! ## The writes of an ack -/

/-- The writes of the call `c` of `setMsgAck` for the message at `q` of the batch `b`. -/
structure AckWrites (trace : List ThreadObs) (c : WorkRef) (b : BatchRef) (msgId : String)
    (st : ConsumeStatus) (q : Addr) : Prop where
  statusMap : .wrote (.worker c) b (.statusMap q st) ∈ trace
  clientStatusMap : .wrote (.worker c) b (.clientStatusMap q .msgConsumeAck) ∈ trace
  reconsumeMap : st = .reconsumeLater → .wrote (.worker c) b (.reconsumeMap msgId) ∈ trace

/-- The messages of the id that come before `p` are written. -/
def WrittenBefore (trace : List ThreadObs) (c : WorkRef) (b : BatchRef) (l : ConsumerUnitLocker)
    (msgId : String) (st : ConsumeStatus) (p : Addr) : Prop :=
  ∀ q, l.Filed msgId q → q < p → AckWrites trace c b msgId st q

/-- What the call has written when it is at `pc` in the batch. -/
def Progress (trace : List ThreadObs) (c : WorkRef) (b : BatchRef) (l : ConsumerUnitLocker)
    (op : Op) : BodyPc → Prop
  | .find msgId st => op = .setMsgAck msgId st
  | .setStatus msgId st p => op = .setMsgAck msgId st ∧ l.Filed msgId p ∧
      WrittenBefore trace c b l msgId st p
  | .setClientStatus msgId st p => op = .setMsgAck msgId st ∧ l.Filed msgId p ∧
      WrittenBefore trace c b l msgId st p ∧ .wrote (.worker c) b (.statusMap p st) ∈ trace
  | .setReconsume msgId st p => op = .setMsgAck msgId st ∧ l.Filed msgId p ∧
      WrittenBefore trace c b l msgId st p ∧ .wrote (.worker c) b (.statusMap p st) ∈ trace ∧
      .wrote (.worker c) b (.clientStatusMap p .msgConsumeAck) ∈ trace
  | .found => ∃ msgId st, op = .setMsgAck msgId st ∧ (∃ q, l.Filed msgId q) ∧
      ∀ q, l.Filed msgId q → AckWrites trace c b msgId st q
  | _ => True

section Progress

variable {trace trace' : List ThreadObs} {c : WorkRef} {b : BatchRef}
  {l l' : ConsumerUnitLocker} {op : Op} {msgId : String} {st : ConsumeStatus} {p : Addr}

theorem AckWrites.mono (h : AckWrites trace c b msgId st p) (ht : trace ⊆ trace') :
    AckWrites trace' c b msgId st p :=
  ⟨ht h.statusMap, ht h.clientStatusMap, fun hst => ht (h.reconsumeMap hst)⟩

theorem WrittenBefore.mono (h : WrittenBefore trace c b l msgId st p) (ht : trace ⊆ trace') :
    WrittenBefore trace' c b l msgId st p := fun q hq hlt => (h q hq hlt).mono ht

/-- The batch is read through what its messages are filed under. -/
theorem progress_congr (hid : l'.idMsgMap = l.idMsgMap) :
    Progress trace c b l' op = Progress trace c b l op := by
  have hfiled : l'.Filed = l.Filed := by
    funext msgId q
    rw [ConsumerUnitLocker.Filed, hid]
    rfl
  funext pc
  cases pc <;> simp only [Progress, WrittenBefore, hfiled]

theorem Progress.mono {pc : BodyPc} (h : Progress trace c b l op pc) (ht : trace ⊆ trace') :
    Progress trace' c b l op pc := by
  cases pc with
  | setStatus => exact ⟨h.1, h.2.1, h.2.2.mono ht⟩
  | setClientStatus => exact ⟨h.1, h.2.1, h.2.2.1.mono ht, ht h.2.2.2⟩
  | setReconsume => exact ⟨h.1, h.2.1, h.2.2.1.mono ht, ht h.2.2.2.1, ht h.2.2.2.2⟩
  | found =>
    obtain ⟨msgId, st, hop, hex, hall⟩ := h
    exact ⟨msgId, st, hop, hex, fun q hq => (hall q hq).mono ht⟩
  | find => exact h
  | unlockBegin | unlockTest | unlockClientStatus | unlockStatus | check | scan | release
  | releaseClient | notify | lockMtx | pop | unlockMtx | iterNext | «break» => trivial

theorem progress_setNext (hop : op = .setMsgAck msgId st) (hp : l.Filed msgId p)
    (hbefore : WrittenBefore trace c b l msgId st p)
    (hat : AckWrites trace c b msgId st p) :
    Progress trace c b l op (BodyPc.setNext l msgId st p) := by
  obtain ⟨idMap, hid, hmem⟩ := hp
  have hupto (q : Addr) (hq : l.Filed msgId q) (hle : compare q p = .lt ∨ q = p) :
      AckWrites trace c b msgId st q := by
    rcases hle with hlt | rfl
    · exact hbefore q hq (Nat.compare_eq_lt.mp hlt)
    · exact hat
  have hfiled (q : Addr) : l.Filed msgId q ↔ q ∈ idMap := by
    simp [ConsumerUnitLocker.Filed, hid]
  unfold BodyPc.setNext
  rw [hid, Option.bind_some]
  cases hnext : Iterator.next idMap p with
  | none =>
    refine ⟨msgId, st, hop, ⟨p, (hfiled p).mpr hmem⟩, fun q hq => hupto q hq ?_⟩
    exact Iterator.le_of_next_none hnext ((hfiled q).mp hq)
  | some r =>
    refine ⟨hop, (hfiled r.1).mpr ?_, fun q hq hlt => hupto q hq ?_⟩
    · exact TreeMap.mem_iff_isSome_getElem?.mpr (by simp [Iterator.getElem?_of_next hnext])
    · exact Iterator.before_next hnext ((hfiled q).mp hq) (Nat.compare_eq_lt.mpr hlt)

theorem progress_find (hop : op = .setMsgAck msgId st) :
    Progress trace c b l op (BodyPc.next l (.find msgId st)) := by
  rw [BodyPc.next]
  cases hfirst : l.idMsgMap[msgId]?.bind Iterator.first with
  | none => trivial
  | some r =>
    obtain ⟨idMap, hid, hfirst⟩ := Option.bind_eq_some_iff.mp hfirst
    refine ⟨hop, ⟨idMap, hid, ?_⟩, fun q hq hlt => ?_⟩
    · exact TreeMap.mem_iff_isSome_getElem?.mpr (by simp [Iterator.getElem?_of_first hfirst])
    · obtain ⟨idMap', hid', hmem⟩ := hq
      obtain rfl := Option.some.inj (hid.symm.trans hid')
      exact absurd (Nat.compare_eq_lt.mpr hlt) (Iterator.not_before_first hfirst hmem)

theorem progress_body {op' : Op} (h : op' = op) : Progress trace c b l op' op.body := by
  cases op with
  | setMsgAck => exact h
  | fetchAndConsume | unlockAll => exact trivial

theorem progress_unlockNext (p : Addr) : Progress trace c b l op (BodyPc.unlockNext l p) := by
  unfold BodyPc.unlockNext
  split <;> exact trivial

theorem Acts.progress {w w' : Work} {batch batch' : Batch} {pc : BodyPc} {obs : List ThreadObs}
    (ha : Acts c w b batch pc.action w' batch' obs)
    (h : Progress trace c b batch.record op pc) :
    Progress (trace ++ obs) c b batch.record op (pc.next batch.record) := by
  have hsub : trace ⊆ trace ++ obs := List.subset_append_left _ _
  have hnew : obs ⊆ trace ++ obs := List.subset_append_right _ _
  cases pc with
  | find => exact progress_find h
  | setStatus msgId st p =>
    cases ha with
    | write =>
      exact ⟨h.1, h.2.1, h.2.2.mono hsub, hnew (List.mem_singleton_self _)⟩
  | setClientStatus msgId st p =>
    cases ha with
    | write =>
      obtain ⟨hop, hp, hbefore, hstatus⟩ := h
      have hclient := hnew (List.mem_singleton_self
        (ThreadObs.wrote (.worker c) b (.clientStatusMap p .msgConsumeAck)))
      rw [BodyPc.next]
      split
      · exact ⟨hop, hp, hbefore.mono hsub, hsub hstatus, hclient⟩
      · next hst =>
        exact progress_setNext hop hp (hbefore.mono hsub)
          ⟨hsub hstatus, hclient, fun he => absurd he hst⟩
  | setReconsume msgId st p =>
    cases ha with
    | write =>
      obtain ⟨hop, hp, hbefore, hstatus, hclient⟩ := h
      exact progress_setNext hop hp (hbefore.mono hsub)
        ⟨hsub hstatus, hsub hclient, fun _ => hnew (List.mem_singleton_self _)⟩
  | found | unlockClientStatus | release | releaseClient | notify | lockMtx | pop | iterNext
  | «break» => exact trivial
  | unlockStatus => exact progress_unlockNext _
  | unlockTest =>
    rw [BodyPc.next]
    split
    · exact trivial
    · exact progress_unlockNext _
  | unlockBegin | unlockMtx =>
    rw [BodyPc.next]
    split <;> exact trivial
  | check =>
    rw [BodyPc.next]
    split
    · exact trivial
    · split <;> exact trivial
  | scan =>
    rw [BodyPc.next]
    split
    · exact trivial
    · dsimp only
      split <;> exact trivial

end Progress

/-- What the trace says of the calls of `setMsgAck`. -/
structure Acking (s : UnitThreads) : Prop where
  progress : ∀ (c : WorkRef) (w : Work) (a : Addr) (b : BatchRef) (pc : BodyPc) (batch : Batch),
    s.works[c]? = some w → w.pc = .visit a b pc → s.batches[b]? = some batch →
      Progress s.trace c b batch.record w.op pc
  found : ∀ c b, .found c b ∈ s.trace → ∃ w msgId st batch, s.works[c]? = some w ∧
    w.op = .setMsgAck msgId st ∧ s.batches[b]? = some batch ∧
    (∃ q, batch.record.Filed msgId q) ∧
    ∀ q, batch.record.Filed msgId q → AckWrites s.trace c b msgId st q
  ret : ∀ c w, s.works[c]? = some w → w.ret = true → ∃ b, .found c b ∈ s.trace
  returned : ∀ c ret, .returned c ret ∈ s.trace →
    ∃ w, s.works[c]? = some w ∧ w.pc = .done ∧ w.ret = ret

section Acking

variable {s s' : UnitThreads} {e : ThreadEvent}

theorem Step.progress (h : Step s e s') (hr : Registry s) (hk : Acking s) :
    s'.Visits Progress := by
  refine h.visits (fun _ _ _ _ _ => progress_body rfl) (fun _ _ _ _ _ _ _ _ _ _ ha hp => ?_)
    (fun _ _ _ _ _ _ _ _ hages ht hp => ?_) hr hk.progress
  · rw [progress_congr ha.ages.idMsgMap]
    exact ha.progress hp
  · rw [progress_congr hages.idMsgMap]
    exact hp.mono ht

theorem Step.acking (h : Step s e s') (hr : Registry s) (hk : Acking s) : Acking s' := by
  refine ⟨h.progress hr hk, fun c b hmem => ?_,
    fun c w hc hret => ?_, fun c ret hmem => ?_⟩
  · have hold : ∃ w msgId st batch, s.works[c]? = some w ∧ w.op = .setMsgAck msgId st ∧
        s.batches[b]? = some batch ∧ (∃ q, batch.record.Filed msgId q) ∧
        ∀ q, batch.record.Filed msgId q → AckWrites s.trace c b msgId st q := by
      rcases h.mem_trace hmem with hmem | hem
      · exact hk.found c b hmem
      · cases hem with
        | @found c w a b hc hpc =>
          obtain ⟨x, hx, -⟩ := hr.registered a b (hr.visits c w a b _ hc hpc)
          obtain ⟨msgId, st, hop, hex, hall⟩ := hk.progress c w a b _ x hc hpc hx
          exact ⟨w, msgId, st, x, hc, hop, hx, hex, hall⟩
    obtain ⟨w, msgId, st, x, hc, hop, hx, hex, hall⟩ := hold
    obtain ⟨w', hc', hop', -⟩ := h.work hc
    obtain ⟨y, hy, hlater⟩ := h.later hx
    have hfiled (q : Addr) : y.record.Filed msgId q ↔ x.record.Filed msgId q := by
      rw [ConsumerUnitLocker.Filed, hlater.idMsgMap]
      rfl
    exact ⟨w', msgId, st, y, hc', hop'.trans hop, hy, hex.imp fun q => (hfiled q).mpr,
      fun q hq => (hall q ((hfiled q).mp hq)).mono h.trace_subset⟩
  · cases h.work_cases hc with
    | same hc => exact (hk.ret c w hc hret).imp fun b hb => h.trace_subset hb
    | new op hw => rw [hw] at hret; cases hret
    | moved hc₀ hop hret₀ =>
      exact (hk.ret c _ hc₀ (hret₀ ▸ hret)).imp fun b hb => h.trace_subset hb
    | acted hc₀ _ _ ha _ ht =>
      rcases ha.ret_cases hret with hret₀ | hfound
      · exact (hk.ret c _ hc₀ hret₀).imp fun b hb => h.trace_subset hb
      · exact ⟨_, ht ▸ List.mem_append_right _ hfound⟩
  · rcases h.mem_trace hmem with hmem | hem
    · obtain ⟨w, hc, hpc, hret⟩ := hk.returned c ret hmem
      obtain ⟨w', hc', -, -, hsame⟩ := h.work hc
      obtain rfl := hsame hpc
      exact ⟨w', hc', hpc, hret⟩
    · cases hem with
      | returned hc hpc => exact ⟨_, hc, hpc, rfl⟩

theorem acking {group : String} (h : Reachable group s) : Acking s :=
  h.invariant ⟨by simp [init], by simp [init], by simp [init], by simp [init]⟩
    fun _ _ _ hr hk _ hs => (step_cases hs).acking (registry hr) hk

end Acking

/-! ## Runs -/

/-- What is written, is written before the verdict. -/
theorem AckWrites.before {trace h₁ h₂ : List ThreadObs} {c : WorkRef} {b : BatchRef}
    {msgId : String} {st : ConsumeStatus} {q : Addr} (h : AckWrites trace c b msgId st q)
    (ho : trace.Pairwise NotAfter) (ht : trace = h₁ ++ .verdict b :: h₂) :
    AckWrites h₁ c b msgId st q := by
  subst ht
  have hnot := (List.pairwise_cons.mp (List.pairwise_append.mp ho).2.1).1
  have hbefore {r : RecordWrite}
      (hmem : .wrote (.worker c) b r ∈ h₁ ++ .verdict b :: h₂) : .wrote (.worker c) b r ∈ h₁ := by
    rcases List.mem_append.mp hmem with hmem | hmem
    · exact hmem
    · rcases List.mem_cons.mp hmem with he | hmem
      · cases he
      · exact absurd rfl (hnot _ hmem b rfl (.worker c) r)
  exact ⟨hbefore h.statusMap, hbefore h.clientStatusMap, fun hst => hbefore (h.reconsumeMap hst)⟩

/-- No write to a batch follows the start of the verdict on it, and no step from there on
changes its record.  A call of `setMsgAck` that returns true has found its id in a batch,
and for each batch it has found it in, its writes are made, and before any verdict. -/
theorem no_write_after_verdict {group : String} {s : UnitThreads} (h : Reachable group s) :
    s.trace.Pairwise NotAfter ∧
    (∀ b x e s', .verdict b ∈ s.trace → s.batches[b]? = some x → s.step e = some s' →
      ∃ y, s'.batches[b]? = some y ∧ y.record = x.record) ∧
    ∀ c, .returned c true ∈ s.trace → ∃ w msgId st, s.works[c]? = some w ∧
      w.op = .setMsgAck msgId st ∧ (∃ b, .found c b ∈ s.trace) ∧
      ∀ b, .found c b ∈ s.trace → ∃ batch, s.batches[b]? = some batch ∧
        (∃ q, batch.record.Filed msgId q) ∧ ∀ q, batch.record.Filed msgId q →
          AckWrites s.trace c b msgId st q ∧
          ∀ h₁ h₂, s.trace = h₁ ++ .verdict b :: h₂ → AckWrites h₁ c b msgId st q := by
  have hj := judged h
  have hk := acking h
  refine ⟨hj.order, fun b x e s' hmem hx hs => (step_cases hs).record (registry h) hj hmem hx,
    fun c hret => ?_⟩
  obtain ⟨w, hc, -, hw⟩ := hk.returned c true hret
  obtain ⟨b₀, hb₀⟩ := hk.ret c w hc hw
  obtain ⟨w₀, msgId, st, -, hc₀, hop, -⟩ := hk.found c b₀ hb₀
  obtain rfl := Option.some.inj (hc.symm.trans hc₀)
  refine ⟨w, msgId, st, hc, hop, ⟨b₀, hb₀⟩, fun b hb => ?_⟩
  obtain ⟨w₁, msgId₁, st₁, batch, hc₁, hop₁, hbatch, hex, hall⟩ := hk.found c b hb
  obtain rfl := Option.some.inj (hc.symm.trans hc₁)
  obtain ⟨rfl, rfl⟩ := Op.setMsgAck.inj (hop.symm.trans hop₁)
  exact ⟨batch, hbatch, hex, fun q hq =>
    ⟨hall q hq, fun h₁ h₂ ht => (hall q hq).before hj.order ht⟩⟩

/-- The thread takes `n` steps in a row. -/
def turns (t : Tid) (n : Nat) : List ThreadEvent := List.replicate n (.turn t)

/-- A batch of one message is fetched and acked while its callback sleeps. -/
def ackedOnce : List ThreadEvent :=
  [[.callback 5 [(10, ⟨"m1", "t", "b", 0⟩)]], turns (.callback 0) 6,
    [.call .fetchAndConsume], turns (.worker 0) 7,
    [.call (.setMsgAck "m1" .reconsumeLater)], turns (.worker 1) 14,
    turns (.callback 0) 8].flatten

theorem no_write_after_ackedOnce : ∃ s, Runs.exec step (init "g") ackedOnce = some s ∧
    .returned 1 true ∈ s.trace ∧ .verdict 0 ∈ s.trace ∧ s.trace.Pairwise NotAfter := by
  have hrun : (Runs.exec step (init "g") ackedOnce).map (fun s =>
      decide (.returned 1 true ∈ s.trace ∧ .verdict 0 ∈ s.trace)) = some true := by
    decide
  obtain ⟨s, hs, hmem⟩ := Option.map_eq_some_iff.mp hrun
  obtain ⟨hret, hverdict⟩ := of_decide_eq_true hmem
  exact ⟨s, hs, hret, hverdict, (no_write_after_verdict (Runs.Reach.init.of_exec hs)).1⟩

end UnitThreads
end RocketmqProxy
