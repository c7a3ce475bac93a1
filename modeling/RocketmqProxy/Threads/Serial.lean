import RocketmqProxy.Lib.Linear
import RocketmqProxy.Lib.Record
import RocketmqProxy.Threads.Conclusion
import RocketmqProxy.Threads.Reduction

/-!
# One call after the other

While no two calls of `setMsgAck` are at one batch, the batch is as if each call had dealt
with it at once, at the step of its body that counts.  So the races of a fetch with an ack, and
of a release with the predicate of `cv.wait`, do no harm, and the callback returns what it would
return after those steps.
-/

namespace RocketmqProxy

open ConsumerUnitLocker
open Linear (Legal)

/-- The batch that the call is dealing with, unless it is a fetch. -/
def Work.busy (w : Work) : Option BatchRef :=
  match w.op, w.pc with
  | .fetchAndConsume, _ => none
  | .setMsgAck _ _, .visit _ b pc | .unlockAll, .visit _ b pc =>
    if pc = .iterNext then none else some b
  | _, _ => none

/-- The same, of an ack. -/
def Work.acking (w : Work) : Option BatchRef :=
  match w.op with
  | .setMsgAck _ _ => w.busy
  | .fetchAndConsume | .unlockAll => none

theorem Work.busy_eq_some {w : Work} {b : BatchRef} : w.busy = some b ↔
    w.op ≠ .fetchAndConsume ∧ ∃ a pc, w.pc = .visit a b pc ∧ pc ≠ .iterNext := by
  obtain ⟨op, pc, ret, msg⟩ := w
  cases op <;> cases pc <;> simp [busy, and_comm]

namespace UnitThreads

/-- No two calls of `setMsgAck` are at one batch. -/
def Solo (s : UnitThreads) : Prop := (s.works.filterMap Work.acking).Nodup

instance (s : UnitThreads) : Decidable s.Solo := inferInstanceAs (Decidable (List.Nodup _))

/-- The step of a call with which it deals with a batch, and what it gets. -/
def effects (s : UnitThreads) : ThreadEvent → List (BatchRef × Linear.Op Op (Option MsgPtr))
  | .turn (.worker c) => (do
      let w ← s.works[c]?
      match w.pc with
      | .visit _ b pc =>
        let batch ← s.batches[b]?
        let ret ← pc.effect batch.record
        some (b, Linear.Op.mk c w.op ret)
      | _ => none).toList
  | _ => []

/-- What the calls have done to the batch `b`, in order. -/
def dealings (b : BatchRef) (log : List (BatchRef × Linear.Op Op (Option MsgPtr))) :
    List (Linear.Op Op (Option MsgPtr)) :=
  log.filterMap fun p => if p.1 = b then some p.2 else none

section Busy

variable {group : String} {s : UnitThreads} {c c' : WorkRef} {w w' : Work} {b : BatchRef}

/-- No two calls, other than fetches, are at one batch. -/
theorem eq_of_busy (h : Reachable group s) (hs : s.Solo) (hc : s.works[c]? = some w)
    (hc' : s.works[c']? = some w') (hb : w.busy = some b) (hb' : w'.busy = some b) : c = c' := by
  obtain ⟨hop, a, pc, hpc, -⟩ := Work.busy_eq_some.mp hb
  obtain ⟨hop', a', pc', hpc', -⟩ := Work.busy_eq_some.mp hb'
  have hmode := mode_visit hc hpc
  have hmode' := mode_visit hc' hpc'
  have hexclusive {t t' : Tid} {md : SharedMutex.Mode} (ht : s.mode t = some .exclusive)
      (ht' : s.mode t' = some md) : t' = t := (respects h).eq_of_exclusive ht ht'
  cases hw : w.op with
  | fetchAndConsume => exact absurd hw hop
  | unlockAll =>
    rw [hw] at hmode
    exact (Tid.worker.inj (hexclusive hmode hmode')).symm
  | setMsgAck msgId st =>
    cases hw' : w'.op with
    | fetchAndConsume => exact absurd hw' hop'
    | unlockAll =>
      rw [hw'] at hmode'
      exact Tid.worker.inj (hexclusive hmode' hmode)
    | setMsgAck msgId' st' =>
      have hack : w.acking = some b := by rw [Work.acking, hw]; exact hb
      have hack' : w'.acking = some b := by rw [Work.acking, hw']; exact hb'
      rw [Solo, List.Nodup, List.pairwise_filterMap, List.pairwise_iff_getElem] at hs
      obtain ⟨hlt, rfl⟩ := List.getElem?_eq_some_iff.mp hc
      obtain ⟨hlt', rfl⟩ := List.getElem?_eq_some_iff.mp hc'
      rcases Nat.lt_trichotomy c c' with hcc | hcc | hcc
      · exact absurd rfl (hs c c' hlt hlt' hcc b hack b hack')
      · exact hcc
      · exact absurd rfl (hs c' c hlt' hlt hcc b hack' b hack)

theorem effects_visit {a : Addr} {pc : BodyPc} {x : Batch} (hc : s.works[c]? = some w)
    (hpc : w.pc = .visit a b pc) (hb : s.batches[b]? = some x) :
    s.effects (.turn (.worker c)) =
      (((pc.effect x.record).map (Linear.Op.mk c w.op)).map (Prod.mk b)).toList := by
  simp only [effects, hc, hpc, Option.bind_eq_bind, Option.bind_some, hb]
  cases pc.effect x.record <;> rfl

theorem effects_of_not_visit (hc : s.works[c]? = some w) (hpc : ∀ a b pc, w.pc ≠ .visit a b pc) :
    s.effects (.turn (.worker c)) = [] := by
  simp only [effects, hc, Option.bind_eq_bind, Option.bind_some]
  rfl

/-- A walk that moves on deals with no batch. -/
theorem effects_of_goes {pc : WorkPc} (hc : s.works[c]? = some w)
    (hgo : Goes s.lockers w.op w.pc pc) : s.effects (.turn (.worker c)) = [] := by
  generalize hpc : w.pc = wpc at hgo
  cases hgo with
  | begin => exact effects_of_not_visit hc (by simp [hpc])
  | iterNext a b | «break» a b =>
    simp only [effects, hc, hpc, Option.bind_eq_bind, Option.bind_some]
    cases s.batches[b]? <;> rfl

theorem dealings_append (log log' : List (BatchRef × Linear.Op Op (Option MsgPtr))) :
    dealings b (log ++ log') = dealings b log ++ dealings b log' := List.filterMap_append

theorem dealings_of_ne {b' : BatchRef} (hb : b' ≠ b) (o : Option (Linear.Op Op (Option MsgPtr))) :
    dealings b (o.map (Prod.mk b')).toList = [] := by
  cases o <;> simp [dealings, hb]

/-- The batch after a step that may be the one which counts. -/
theorem legal_effect {log : List (BatchRef × Linear.Op Op (Option MsgPtr))}
    {l₀ l l' : ConsumerUnitLocker} (h : Legal serialSpec l₀ (dealings b log) l) {op : Op}
    {o : Option (Option MsgPtr)} (hsome : ∀ ret, o = some ret → op.atOnce l = (ret, l'))
    (hnone : o = none → l' = l) : Legal serialSpec l₀
      (dealings b (log ++ ((o.map (Linear.Op.mk c op)).map (Prod.mk b)).toList)) l' := by
  rw [dealings_append]
  cases o with
  | none =>
    rw [hnone rfl]
    exact (List.append_nil (dealings b log)).symm ▸ h
  | some ret =>
    have hone : dealings b [(b, Linear.Op.mk c op ret)] = [⟨c, op, ret⟩] := by simp [dealings]
    show Legal serialSpec l₀ (dealings b log ++ dealings b [(b, Linear.Op.mk c op ret)]) l'
    rw [hone]
    exact h.concat (congrArg some (hsome ret rfl))

end Busy

/-! ## The invariant -/

/-- What the calls have done to a batch, one after the other, has left `l`. -/
structure Serial (group : String) (s : UnitThreads)
    (log : List (BatchRef × Linear.Op Op (Option MsgPtr))) (b : BatchRef) (x : Batch)
    (msgs : List (Addr × MQMessageExt)) (l : ConsumerUnitLocker) : Prop where
  copies : x.msgs = msgs.map Prod.snd
  legal : Legal serialSpec (.new msgs group) (dealings b log) l
  fetchedArr : x.record.fetchedArr = l.fetchedArr
  midway : ∀ (c : WorkRef) (w : Work) (a : Addr) (pc : BodyPc), s.works[c]? = some w →
    w.pc = .visit a b pc → w.busy = some b → Midway l x.record w.op pc
  idle : (∀ (c : WorkRef) (w : Work), s.works[c]? = some w → w.busy ≠ some b) → x.record = l

section Serial

variable {group : String} {s s' : UnitThreads} {e : ThreadEvent}
  {log : List (BatchRef × Linear.Op Op (Option MsgPtr))} {b : BatchRef} {x y : Batch}
  {msgs : List (Addr × MQMessageExt)} {l : ConsumerUnitLocker}

/-- Nothing has happened to the batch, and the calls that are dealing with it are where they
were. -/
theorem Serial.keep (h : Serial group s log b x msgs l) (hm : y.msgs = x.msgs)
    (hr : y.record = x.record) {new : List (BatchRef × Linear.Op Op (Option MsgPtr))}
    (hnew : dealings b new = [])
    (hback : ∀ (c : WorkRef) (w' : Work), s'.works[c]? = some w' → w'.busy = some b →
      ∃ w, s.works[c]? = some w ∧ w.busy = some b ∧ w.op = w'.op ∧ w.pc = w'.pc)
    (hstay : ∀ (c : WorkRef) (w : Work), s.works[c]? = some w → w.busy = some b →
      ∃ w', s'.works[c]? = some w' ∧ w'.busy = some b) :
    Serial group s' (log ++ new) b y msgs l where
  copies := hm.trans h.copies
  legal := by rw [dealings_append, hnew, List.append_nil]; exact h.legal
  fetchedArr := by rw [hr]; exact h.fetchedArr
  midway c w' a pc hc hpc hbusy := by
    obtain ⟨w, hc, hbusy, hop, hpc'⟩ := hback c w' hc hbusy
    rw [hr, ← hop]
    exact h.midway c w a pc hc (hpc'.trans hpc) hbusy
  idle hnone := by
    rw [hr]
    refine h.idle fun c w hc hbusy => ?_
    obtain ⟨w', hc', hbusy'⟩ := hstay c w hc hbusy
    exact hnone c w' hc' hbusy'

/-- The calls are as they were. -/
theorem Serial.same (h : Serial group s log b x msgs l) (hw : s'.works = s.works)
    (hm : y.msgs = x.msgs) (hr : y.record = x.record) :
    Serial group s' (log ++ []) b y msgs l := by
  refine h.keep hm hr rfl (fun c w' hc hbusy => ?_) fun c w hc hbusy => ?_
  · exact ⟨w', hw ▸ hc, hbusy, rfl, rfl⟩
  · exact ⟨w, hw ▸ hc, hbusy⟩

/-- One call, which is not dealing with the batch, has moved. -/
theorem Serial.other (h : Serial group s log b x msgs l) {c : WorkRef} {w w' : Work}
    (hc : s.works[c]? = some w) (hw : s'.works = s.works.set c w') (hfree : w.busy ≠ some b)
    (hfree' : w'.busy ≠ some b) (hm : y.msgs = x.msgs) (hr : y.record = x.record)
    {new : List (BatchRef × Linear.Op Op (Option MsgPtr))} (hnew : dealings b new = []) :
    Serial group s' (log ++ new) b y msgs l := by
  refine h.keep hm hr hnew (fun c₁ w₁ hc₁ hbusy => ?_) fun c₁ w₁ hc₁ hbusy => ?_
  · rw [hw] at hc₁
    rcases Heap.of_set hc₁ with ⟨-, rfl⟩ | hc₁
    · exact absurd hbusy hfree'
    · exact ⟨w₁, hc₁, hbusy, rfl, rfl⟩
  · have hne : c ≠ c₁ := by
      rintro rfl
      obtain rfl := Option.some.inj (hc.symm.trans hc₁)
      exact hfree hbusy
    exact ⟨w₁, by rw [hw, List.getElem?_set_ne hne, hc₁], hbusy⟩

/-- A fetch moves on in the body. -/
theorem Serial.fetch (h : Serial group s log b x msgs l) (hr : Reachable group s) {c : WorkRef}
    {w w' : Work} {a : Addr} {pc : BodyPc} (hc : s.works[c]? = some w)
    (hpc : w.pc = .visit a b pc) (hop : w.op = .fetchAndConsume)
    (hw : s'.works = s.works.set c w') (hop' : w'.op = w.op) (hm : y.msgs = x.msgs)
    (hrec : y.record = pc.action.apply x.record) (hb : s.batches[b]? = some x) :
    ∃ l, Serial group s' (log ++ s.effects (.turn (.worker c))) b y msgs l := by
  have hfree : w.busy ≠ some b := fun hbusy => (Work.busy_eq_some.mp hbusy).1 hop
  have hfree' : w'.busy ≠ some b :=
    fun hbusy => (Work.busy_eq_some.mp hbusy).1 (hop'.trans hop)
  have hfits := fits_visit hr hc hpc
  rw [hop] at hfits
  rw [effects_visit hc hpc hb]
  by_cases hpop : pc = .pop
  · subst hpop
    have hothers {c₁ : WorkRef} {w₁ : Work} (hbusy : w₁.busy = some b)
        (hc₁ : s'.works[c₁]? = some w₁) : s.works[c₁]? = some w₁ := by
      rw [hw] at hc₁
      rcases Heap.of_set hc₁ with ⟨-, rfl⟩ | hc₁
      · exact absurd hbusy hfree'
      · exact hc₁
    refine ⟨l.popped, hm.trans h.copies, legal_effect h.legal (fun ret hret => ?_)
      (fun he => by cases he), ?_, fun c₁ w₁ a₁ pc₁ hc₁ hpc₁ hbusy => ?_, fun hnone => ?_⟩
    · obtain rfl := Option.some.inj hret
      rw [hop, atOnce_fetch, getMsg_fst, h.fetchedArr]
    · rw [hrec]
      exact congrArg List.tail h.fetchedArr
    · have hc₁ := hothers hbusy hc₁
      have hmid := h.midway c₁ w₁ a₁ pc₁ hc₁ hpc₁ hbusy
      have hfits₁ := fits_visit hr hc₁ hpc₁
      cases hop₁ : w₁.op with
      | fetchAndConsume => exact absurd hop₁ (Work.busy_eq_some.mp hbusy).1
      | unlockAll =>
        -- the lock keeps it apart from the fetch
        have hmode₁ := mode_visit hc₁ hpc₁
        rw [hop₁] at hmode₁
        obtain rfl := Tid.worker.inj ((respects hr).eq_of_exclusive hmode₁ (mode_visit hc hpc))
        obtain rfl := Option.some.inj (hc.symm.trans hc₁)
        exact absurd hbusy hfree
      | setMsgAck msgId st =>
        rw [hop₁] at hmid hfits₁
        rw [hrec]
        exact hmid.pop hfits₁
    · have hx : x.record = l := by
        refine h.idle fun c₁ w₁ hc₁ hbusy => hnone c₁ w₁ ?_ hbusy
        have hne : c ≠ c₁ := by
          rintro rfl
          obtain rfl := Option.some.inj (hc.symm.trans hc₁)
          exact hfree hbusy
        rw [hw, List.getElem?_set_ne hne, hc₁]
      rw [hrec, hx]
      rfl
  · have hquiet : pc.effect x.record = none ∧ pc.action.apply x.record = x.record := by
      cases pc with
      | pop => exact absurd rfl hpop
      | lockMtx | unlockMtx | iterNext | «break» => exact ⟨rfl, rfl⟩
      | check forced =>
        cases forced with
        | true => cases hfits
        | false =>
          obtain ⟨_, _, he⟩ := hfits
          cases he
      | scan | release | releaseClient | notify => exact absurd rfl hfits
      | unlockBegin | unlockTest | unlockClientStatus | unlockStatus => cases hfits
      | find | setStatus | setClientStatus | setReconsume | found =>
        obtain ⟨_, _, he⟩ := hfits
        cases he
    rw [hquiet.1]
    exact ⟨l, h.other hc hw hfree hfree' hm (hrec.trans hquiet.2) rfl⟩

/-- An ack or a forced unlock moves on in the body. -/
theorem Serial.deal (h : Serial group s log b x msgs l) (hr : Reachable group s) (hs : s.Solo)
    {c : WorkRef} {w w' : Work} {a : Addr} {pc : BodyPc} (hc : s.works[c]? = some w)
    (hpc : w.pc = .visit a b pc) (hop : w.op ≠ .fetchAndConsume)
    (hw : s'.works = s.works.set c w') (hop' : w'.op = w.op)
    (hpc' : w'.pc = .visit a b (pc.next x.record)) (hm : y.msgs = x.msgs)
    (hrec : y.record = pc.action.apply x.record) (hb : s.batches[b]? = some x) :
    ∃ l, Serial group s' (log ++ s.effects (.turn (.worker c))) b y msgs l := by
  rw [effects_visit hc hpc hb]
  by_cases hiter : pc = .iterNext
  · subst hiter
    have hfree {w : Work} (hpc : w.pc = .visit a b .iterNext) : w.busy ≠ some b := by
      intro hbusy
      obtain ⟨-, a', pc', hpc', hne⟩ := Work.busy_eq_some.mp hbusy
      exact hne (WorkPc.visit.inj (hpc'.symm.trans hpc)).2.2
    exact ⟨l, h.other hc hw (hfree hpc) (hfree hpc') hm hrec rfl⟩
  · have hbusy : w.busy = some b := Work.busy_eq_some.mpr ⟨hop, a, pc, hpc, hiter⟩
    have hpop : pc ≠ .pop := by
      rintro rfl
      exact hop (fits_visit hr hc hpc)
    have hmid := (h.midway c w a pc hc hpc hbusy).step
    obtain ⟨hret, hqueue⟩ := atOnce_fetchedArr l hop
    refine ⟨if (pc.effect x.record).isSome then (w.op.atOnce l).2 else l, hm.trans h.copies,
      legal_effect h.legal (fun ret he => ?_) (fun hnone => ?_), ?_,
      fun c₁ w₁ a₁ pc₁ hc₁ hpc₁ hbusy₁ => ?_, fun hnone => ?_⟩
    · rw [he, Option.isSome_some, if_pos rfl, BodyPc.effect_of_ne_pop hpop he, ← hret]
    · rw [hnone, if_neg (by simp)]
    · rw [hrec, BodyPc.apply_fetchedArr _ hpop, h.fetchedArr]
      split
      · exact hqueue.symm
      · rfl
    · rw [hw] at hc₁
      by_cases hcc : c = c₁
      · subst hcc
        obtain rfl := Option.some.inj ((Heap.set_self hc w').symm.trans hc₁)
        obtain ⟨rfl, -, rfl⟩ := WorkPc.visit.inj (hpc'.symm.trans hpc₁)
        rw [hrec, hop']
        exact hmid
      · rw [List.getElem?_set_ne hcc] at hc₁
        exact absurd (eq_of_busy hr hs hc hc₁ hbusy hbusy₁) hcc
    · have hdone : pc.next x.record = .iterNext := by
        by_contra hne
        refine hnone c w' (hw ▸ Heap.set_self hc w') (Work.busy_eq_some.mpr ⟨?_, a, _, hpc', hne⟩)
        rwa [hop']
      rw [hdone] at hmid
      rw [hrec]
      exact hmid.done

/-- A walk comes to the batch, or goes on to another. -/
theorem Serial.go (h : Serial group s log b x msgs l) (hr' : Reachable group s')
    (hs' : s'.Solo) {c : WorkRef} {w : Work} {pc : WorkPc} (hc : s.works[c]? = some w)
    (hgo : Goes s.lockers w.op w.pc pc) (hw : s'.works = s.works.set c { w with pc := pc }) :
    Serial group s' (log ++ []) b x msgs l := by
  have hfree : w.busy ≠ some b := by
    intro hbusy
    obtain ⟨-, a, body, hpc, hne⟩ := Work.busy_eq_some.mp hbusy
    have hmid := h.midway c w a body hc hpc hbusy
    rw [hpc] at hgo
    cases hgo with
    | iterNext => exact hne rfl
    | «break» => exact hmid.ne_break rfl
  by_cases hbusy' : Work.busy { w with pc := pc } = some b
  · obtain ⟨hop, a, body, hpc, -⟩ := Work.busy_eq_some.mp hbusy'
    have hset : s'.works[c]? = some { w with pc := pc } := hw ▸ Heap.set_self hc _
    have honly {c₁ : WorkRef} {w₁ : Work} (hcc : c ≠ c₁) (hc₁ : s.works[c₁]? = some w₁) :
        w₁.busy ≠ some b := by
      intro hbusy₁
      refine hcc (eq_of_busy hr' hs' hset ?_ hbusy' hbusy₁)
      rw [hw, List.getElem?_set_ne hcc, hc₁]
    have hx : x.record = l := by
      refine h.idle fun c₁ w₁ hc₁ hbusy₁ => ?_
      by_cases hcc : c = c₁
      · subst hcc
        obtain rfl := Option.some.inj (hc.symm.trans hc₁)
        exact hfree hbusy₁
      · exact honly hcc hc₁ hbusy₁
    refine ⟨h.copies, ?_, h.fetchedArr, fun c₁ w₁ a₁ pc₁ hc₁ hpc₁ hbusy₁ => ?_, fun _ => hx⟩
    · rw [List.append_nil]
      exact h.legal
    · rw [hw] at hc₁
      by_cases hcc : c = c₁
      · subst hcc
        obtain rfl := Option.some.inj (hset.symm.trans (hw ▸ hc₁))
        obtain rfl := (hgo.visits hpc₁).2
        rw [hx]
        revert hop
        cases w.op with
        | setMsgAck msgId st => exact fun _ => .before trivial .refl
        | fetchAndConsume => exact fun hop => absurd rfl hop
        | unlockAll => exact fun _ => .begin rfl
      · rw [List.getElem?_set_ne hcc] at hc₁
        exact absurd hbusy₁ (honly hcc hc₁)
  · exact h.other hc hw hfree hbusy' rfl rfl rfl

theorem Step.serial (h : Step s e s') (hr : Reachable group s) (hr' : Reachable group s')
    (hs : s.Solo) (hs' : s'.Solo) (hgroup : s.group = group)
    (hnew : ∀ b, s.batches.length ≤ b → dealings b log = [])
    (hall : ∀ b x, s.batches[b]? = some x → ∃ msgs l, Serial group s log b x msgs l)
    (hy : s'.batches[b]? = some y) : ∃ msgs l, Serial group s' (log ++ s.effects e) b y msgs l := by
  have hset {b₀ : BatchRef} {x₀ z : Batch} (hb : s.batches[b₀]? = some x₀)
      (hm : z.msgs = x₀.msgs) (hrec : z.record = x₀.record)
      (hy : (s.batches.set b₀ z)[b]? = some y) (hw : s'.works = s.works) :
      ∃ msgs l, Serial group s' (log ++ []) b y msgs l := by
    rcases Heap.of_set hy with ⟨rfl, rfl⟩ | hy
    · obtain ⟨msgs, l, hserial⟩ := hall b₀ x₀ hb
      exact ⟨msgs, l, hserial.same hw hm hrec⟩
    · obtain ⟨msgs, l, hserial⟩ := hall b y hy
      exact ⟨msgs, l, hserial.same hw rfl rfl⟩
  have houtside {w : Work} (hpc : ¬ ∃ a b pc, w.pc = .visit a b pc) : w.busy ≠ some b := by
    intro hbusy
    obtain ⟨-, a, pc, hvisit, -⟩ := Work.busy_eq_some.mp hbusy
    exact hpc ⟨a, b, pc, hvisit⟩
  cases h with
  | @callback addr copies =>
    rcases Heap.of_append hy with ⟨rfl, rfl⟩ | hy
    · have hnone (c : WorkRef) (w : Work) (hc : s.works[c]? = some w) :
          w.busy ≠ some s.batches.length := by
        intro hbusy
        obtain ⟨-, a, pc, hpc, -⟩ := Work.busy_eq_some.mp hbusy
        obtain ⟨x, hx, -⟩ := visited_registered (UnitThreads.registry hr) hc hpc
        simp at hx
      refine ⟨copies, .new copies group, rfl, ?_, by rw [Batch.new, hgroup],
        fun c w a pc hc _ hbusy => absurd hbusy (hnone c w hc), fun _ => by rw [Batch.new, hgroup]⟩
      rw [dealings_append, hnew _ (Nat.le_refl _)]
      exact .nil
    · obtain ⟨msgs, l, hserial⟩ := hall b y hy
      exact ⟨msgs, l, hserial.same rfl rfl rfl⟩
  | call =>
    obtain ⟨msgs, l, hserial⟩ := hall b y hy
    refine ⟨msgs, l, hserial.keep rfl rfl rfl (fun c w' hc hbusy => ?_) fun c w hc hbusy => ?_⟩
    · rcases Heap.of_append hc with ⟨-, rfl⟩ | hc
      · exact absurd hbusy (houtside (by simp [Work.new]))
      · exact ⟨w', hc, hbusy, rfl, rfl⟩
    · exact ⟨w, Heap.append_old hc _, hbusy⟩
  | wake hb => exact hset hb (wake_batch _).2.1 (wake_record _) hy rfl
  | @callbackLock b₀ x₀ pc m hb | @callbackUnlock b₀ x₀ pc hb =>
    exact hset (z := { x₀ with pc := pc }) hb rfl rfl hy rfl
  | @insert b₀ x₀ hb => exact hset (z := { x₀ with pc := .lockMtx }) hb rfl rfl hy rfl
  | @erase b₀ x₀ hb => exact hset (z := { x₀ with pc := .unlockErase }) hb rfl rfl hy rfl
  | move hb hm => exact hset hb hm.ages.msgs hm.record hy rfl
  | workLock hc hpc | workUnlock hc hpc =>
    obtain ⟨msgs, l, hserial⟩ := hall b y hy
    rw [effects_of_not_visit hc (by simp [hpc])]
    exact ⟨msgs, l, hserial.other hc rfl (houtside (by simp [hpc])) (houtside (by simp)) rfl rfl
      rfl⟩
  | @go c w pc hc hgo =>
    obtain ⟨msgs, l, hserial⟩ := hall b y hy
    rw [effects_of_goes hc hgo]
    exact ⟨msgs, l, hserial.go hr' hs' hc hgo rfl⟩
  | @act c w w' a b₀ pc x₀ y₀ obs hc hpc hb ha =>
    obtain ⟨hop', hpc'⟩ := ha.work
    by_cases hbb : b₀ = b
    · subst hbb
      obtain rfl := Option.some.inj ((Heap.set_self hb y₀).symm.trans hy)
      obtain ⟨msgs, l, hserial⟩ := hall b₀ x₀ hb
      by_cases hop : w.op = .fetchAndConsume
      · exact ⟨msgs, hserial.fetch hr hc hpc hop rfl hop' ha.stays.2.1 ha.record hb⟩
      · exact ⟨msgs, hserial.deal hr hs hc hpc hop rfl hop' hpc' ha.stays.2.1 ha.record hb⟩
    · have hfree {w : Work} {pc : BodyPc} (hpc : w.pc = .visit a b₀ pc) : w.busy ≠ some b := by
        intro hbusy
        obtain ⟨-, a', pc', hvisit, -⟩ := Work.busy_eq_some.mp hbusy
        exact hbb (WorkPc.visit.inj (hpc.symm.trans hvisit)).2.1
      obtain ⟨msgs, l, hserial⟩ := hall b y ((List.getElem?_set_ne hbb).symm.trans hy)
      rw [effects_visit hc hpc hb]
      exact ⟨msgs, l, hserial.other hc rfl (hfree hpc) (hfree hpc') rfl rfl
        (dealings_of_ne hbb _)⟩

end Serial

/-! ## What the fetches get -/

/-- The trace and the order of the steps that count agree on what is fetched. -/
def FetchesAgree (s : UnitThreads) (log : List (BatchRef × Linear.Op Op (Option MsgPtr))) : Prop :=
  ∀ c b msg, .fetched c b msg ∈ s.trace ↔ ⟨c, .fetchAndConsume, some msg⟩ ∈ dealings b log

theorem mem_dealings {b : BatchRef} {op : Linear.Op Op (Option MsgPtr)}
    {log : List (BatchRef × Linear.Op Op (Option MsgPtr))} :
    op ∈ dealings b log ↔ (b, op) ∈ log := by
  simp only [dealings, List.mem_filterMap, Option.ite_none_right_eq_some, Option.some.injEq]
  constructor
  · rintro ⟨⟨b', op'⟩, hmem, rfl, rfl⟩
    exact hmem
  · exact fun hmem => ⟨_, hmem, rfl, rfl⟩

theorem FetchesAgree.append {s s' : UnitThreads} {obs : List ThreadObs}
    {log new : List (BatchRef × Linear.Op Op (Option MsgPtr))} (hf : FetchesAgree s log)
    (ht : s'.trace = s.trace ++ obs) (hnew : ∀ c b msg, .fetched c b msg ∈ obs ↔
      (b, ⟨c, .fetchAndConsume, some msg⟩) ∈ new) : FetchesAgree s' (log ++ new) := by
  intro c b msg
  rw [ht, mem_dealings, List.mem_append, List.mem_append, hf, mem_dealings, hnew]

theorem Step.fetchesAgree {group : String} {s s' : UnitThreads} {e : ThreadEvent}
    {log : List (BatchRef × Linear.Op Op (Option MsgPtr))} (h : Step s e s')
    (hr : Reachable group s) (hf : FetchesAgree s log) :
    FetchesAgree s' (log ++ s.effects e) := by
  have hsilent {e : ThreadEvent} (he : s.effects e = []) {obs : List ThreadObs}
      (ht : s'.trace = s.trace ++ obs) (hobs : ∀ c b msg, .fetched c b msg ∉ obs) :
      FetchesAgree s' (log ++ s.effects e) :=
    he ▸ hf.append ht fun c b msg => by simp [hobs c b msg]
  cases h with
  | callback | call | wake | callbackLock | callbackUnlock | insert | erase =>
    exact hsilent rfl (List.append_nil _).symm (by simp)
  | workLock hc hpc =>
    exact hsilent (effects_of_not_visit hc (by simp [hpc])) (List.append_nil _).symm (by simp)
  | workUnlock hc hpc =>
    exact hsilent (effects_of_not_visit hc (by simp [hpc])) rfl (by simp)
  | go hc hgo => exact hsilent (effects_of_goes hc hgo) (List.append_nil _).symm (by simp)
  | move hb hm => exact hsilent rfl rfl fun c b msg hmem => by cases hm <;> simp at hmem
  | @act c w w' a b pc x y obs hc hpc hb ha =>
    rw [effects_visit hc hpc hb]
    refine hf.append rfl fun c₁ b₁ msg => ?_
    by_cases hpop : pc = .pop
    · subst hpop
      have hop : w.op = .fetchAndConsume := fits_visit hr hc hpc
      cases ha with
      | popNone hg => simp [BodyPc.effect, hg]
      | pop hg =>
        simp only [BodyPc.effect, hg, hop, Option.map_some, Option.toList_some,
          List.mem_singleton, ThreadObs.fetched.injEq, Prod.mk.injEq, Linear.Op.mk.injEq,
          Option.some.injEq, true_and]
        exact ⟨fun ⟨hc₁, hb₁, hmsg⟩ => ⟨hb₁, hc₁, hmsg⟩, fun ⟨hb₁, hc₁, hmsg⟩ => ⟨hc₁, hb₁, hmsg⟩⟩
    · have hobs : .fetched c₁ b₁ msg ∉ obs := by
        generalize haction : pc.action = action at ha
        cases ha with
        | pop => exact absurd (by cases pc <;> first | rfl | cases haction) hpop
        | none | write | found | lockMtx | unlockMtx | popNone | notify => simp
      refine iff_of_false hobs fun hmem => ?_
      simp only [Option.mem_toList, Option.map_eq_some_iff, Prod.mk.injEq] at hmem
      obtain ⟨op, ⟨ret, hret, rfl⟩, -, hop⟩ := hmem
      obtain rfl := BodyPc.effect_of_ne_pop hpop hret
      exact absurd (congrArg Linear.Op.ret hop) (by simp)

/-! ## Runs -/

/-- A run in which no two acks are at one batch, and the steps of it that count. -/
abbrev SoloRun (group : String) (s : UnitThreads)
    (log : List (BatchRef × Linear.Op Op (Option MsgPtr))) : Prop :=
  Runs.Reach (Record.step effects step) (init group, []) (fun r _ => r.1.Solo) (s, log) ∧ s.Solo

theorem Step.group {s s' : UnitThreads} {e : ThreadEvent} (h : Step s e s') :
    s'.group = s.group := by
  cases h <;> rfl

theorem effects_batch {s : UnitThreads} {e : ThreadEvent} {b : BatchRef}
    {op : Linear.Op Op (Option MsgPtr)} (h : (b, op) ∈ s.effects e) : b < s.batches.length := by
  unfold effects at h
  split at h
  · obtain ⟨w, -, h⟩ := Option.bind_eq_some_iff.mp (Option.mem_toList.mp h)
    split at h
    · obtain ⟨x, hx, h⟩ := Option.bind_eq_some_iff.mp h
      obtain ⟨ret, -, h⟩ := Option.bind_eq_some_iff.mp h
      obtain ⟨rfl, -⟩ := Prod.mk.inj (Option.some.inj h)
      exact (List.getElem?_eq_some_iff.mp hx).1
    · cases h
  · exact absurd h List.not_mem_nil

theorem serial {group : String} {s : UnitThreads}
    {log : List (BatchRef × Linear.Op Op (Option MsgPtr))} (h : SoloRun group s log) :
    Reachable group s ∧ FetchesAgree s log ∧ ∀ b x, s.batches[b]? = some x →
      ∃ msgs l, Serial group s log b x msgs l := by
  obtain ⟨h, hsolo⟩ := h
  have hinv : Reachable group s ∧ s.group = group ∧
      (∀ b, s.batches.length ≤ b → dealings b log = []) ∧ FetchesAgree s log ∧
      (s.Solo → ∀ b x, s.batches[b]? = some x → ∃ msgs l, Serial group s log b x msgs l) := by
    refine Record.invariant (I := fun s log => Reachable group s ∧ s.group = group ∧
      (∀ b, s.batches.length ≤ b → dealings b log = []) ∧ FetchesAgree s log ∧
      (s.Solo → ∀ b x, s.batches[b]? = some x → ∃ msgs l, Serial group s log b x msgs l))
      ⟨.init, rfl, fun _ _ => rfl, by simp [FetchesAgree, init, dealings], by simp [init]⟩
      (fun s₁ log e s₂ hi hs₁ hstep => ?_) h
    obtain ⟨hr, hgroup, hnew, hf, hall⟩ := hi
    have hst := step_cases hstep
    have hr₂ : Reachable group s₂ := hr.step trivial hstep
    have hlen : s₁.batches.length ≤ s₂.batches.length := by
      cases hst <;> simp [setBatch, setWork]
    refine ⟨hr₂, hst.group.trans hgroup, fun b hb => ?_, hst.fetchesAgree hr hf,
      fun hs₂ b x hx => hst.serial hr hr₂ hs₁ hs₂ hgroup hnew (hall hs₁) hx⟩
    rw [dealings_append, hnew b (hlen.trans hb), List.nil_append, List.eq_nil_iff_forall_not_mem]
    intro op hop
    exact absurd (effects_batch (mem_dealings.mp hop)) (Nat.not_lt.mpr (hlen.trans hb))
  exact ⟨hinv.1, hinv.2.2.2.1, hinv.2.2.2.2 hsolo⟩

/-- In a run in which no two acks are at one batch at once, each batch is as if the calls had
dealt with it one after the other, each at once: a fetch gets what it got, and the callback
returns once the last of them has released the batch, with the verdict on what they left. -/
theorem batches_serial {group : String} {s : UnitThreads}
    {log : List (BatchRef × Linear.Op Op (Option MsgPtr))} (h : SoloRun group s log)
    {b : BatchRef} {x : Batch} (hb : s.batches[b]? = some x) :
    ∃ msgs l, x.msgs = msgs.map Prod.snd ∧
      Legal serialSpec (.new msgs group) (dealings b log) l ∧
      (∀ c msg, .fetched c b msg ∈ s.trace ↔
        ⟨c, .fetchAndConsume, some msg⟩ ∈ dealings b log) ∧
      ((∀ (c : WorkRef) (w : Work), s.works[c]? = some w → w.busy ≠ some b) → x.record = l) ∧
      ∀ status vec, x.pc = .returned status vec →
        l.clientStatus = .msgConsumeAck ∧ (status, vec) = l.verdict x.msgs := by
  obtain ⟨hr, hf, hall⟩ := serial h
  obtain ⟨msgs, l, hserial⟩ := hall b x hb
  refine ⟨msgs, l, hserial.copies, hserial.legal, fun c msg => hf c b msg, hserial.idle,
    fun status vec hpc => ?_⟩
  have hleft : x.record = l := by
    refine hserial.idle fun c w hc hbusy => ?_
    obtain ⟨-, a, pc, hvisit, -⟩ := Work.busy_eq_some.mp hbusy
    obtain ⟨x', hx', hreg⟩ := visited_registered (registry hr) hc hvisit
    obtain rfl := Option.some.inj (hb.symm.trans hx')
    rw [hpc] at hreg
    exact hreg
  obtain ⟨hreleased, hcomputed⟩ := concluded hr hb
  rw [hpc] at hreleased hcomputed
  exact ⟨hleft ▸ hreleased trivial, hleft ▸ hcomputed⟩

/-- The second message is fetched in the middle of the ack of the first. -/
def fetchedBetween : List ThreadEvent :=
  [[.callback 5 [(10, ⟨"m1", "t", "b", 0⟩), (11, ⟨"m2", "t", "b", 0⟩)]],
    List.replicate 6 (.turn (.callback 0)),
    [.call .fetchAndConsume], List.replicate 7 (.turn (.worker 0)),
    [.call (.setMsgAck "m1" .consumeSuccess)], List.replicate 4 (.turn (.worker 1)),
    [.call .fetchAndConsume], List.replicate 7 (.turn (.worker 2)),
    List.replicate 7 (.turn (.worker 1)),
    [.call (.setMsgAck "m2" .reconsumeLater)], List.replicate 15 (.turn (.worker 3)),
    List.replicate 11 (.turn (.callback 0))].flatten

theorem batches_serial_fetchedBetween : ∃ s log x msgs l, SoloRun "g" s log ∧
    s.batches[0]? = some x ∧ Legal serialSpec (.new msgs "g") (dealings 0 log) l ∧
    (dealings 0 log).map (fun op => (op.call, op.arg)) =
      [(0, .fetchAndConsume), (2, .fetchAndConsume), (1, .setMsgAck "m1" .consumeSuccess),
        (3, .setMsgAck "m2" .reconsumeLater)] ∧
    (.reconsumeLater, [.consumeSuccess, .reconsumeLater]) = l.verdict x.msgs := by
  have hrun : ((Runs.exec (Runs.restrict (Record.step effects step) fun r _ => r.1.Solo)
      (init "g", []) fetchedBetween).map fun r =>
        (decide r.1.Solo, (dealings 0 r.2).map fun op => (op.call, op.arg),
          r.1.batches.map Batch.pc)) =
      some (true, [(0, .fetchAndConsume), (2, .fetchAndConsume),
        (1, .setMsgAck "m1" .consumeSuccess), (3, .setMsgAck "m2" .reconsumeLater)],
        [.returned .reconsumeLater [.consumeSuccess, .reconsumeLater]]) := by
    decide
  obtain ⟨⟨s, log⟩, hs, hfacts⟩ := Option.map_eq_some_iff.mp hrun
  obtain ⟨hsolo, horder, hpcs⟩ : decide s.Solo = true ∧ _ ∧
      s.batches.map Batch.pc = [.returned .reconsumeLater [.consumeSuccess, .reconsumeLater]] := by
    simpa only [Prod.mk.injEq] using hfacts
  have hsoloRun : SoloRun "g" s log :=
    ⟨Runs.Reach.of_exec_restrict .init hs, of_decide_eq_true hsolo⟩
  obtain ⟨x, hbatches, hpc⟩ := List.map_eq_singleton_iff.mp hpcs
  have hx : s.batches[0]? = some x := by rw [hbatches]; rfl
  obtain ⟨msgs, l, -, hlegal, -, -, hverdict⟩ := batches_serial hsoloRun hx
  exact ⟨s, log, x, msgs, l, hsoloRun, hx, hlegal, horder, (hverdict _ _ hpc).2⟩

/-- One ack finds the message to be tried again, and another one acks it before the first has
written that down. -/
def overlappingAcks : List ThreadEvent :=
  [[.callback 5 [(10, ⟨"m1", "t", "b", 0⟩)]], List.replicate 6 (.turn (.callback 0)),
    [.call .fetchAndConsume], List.replicate 7 (.turn (.worker 0)),
    [.call (.setMsgAck "m1" .consumeSuccess), .call (.setMsgAck "m1" .reconsumeLater)],
    List.replicate 9 (.turn (.worker 2)), List.replicate 13 (.turn (.worker 1)),
    List.replicate 5 (.turn (.worker 2))].flatten

/-- Two acks at one batch leave what neither order of them does. -/
example :
    let l := (ConsumerUnitLocker.new [(10, ⟨"m1", "t", "b", 0⟩)] "g").popped
    let shows (l : ConsumerUnitLocker) := (l.status, l.statusMap[10]?)
    (Runs.exec step (init "g") overlappingAcks).map
        (fun s => s.batches.map fun x => shows x.record) =
      some [(.reconsumeLater, some .consumeSuccess)] ∧
    shows ((l.ack "m1" .consumeSuccess).ack "m1" .reconsumeLater) =
      (.reconsumeLater, some .reconsumeLater) ∧
    shows ((l.ack "m1" .reconsumeLater).ack "m1" .consumeSuccess) =
      (.consumeSuccess, some .consumeSuccess) := by
  decide

end UnitThreads
end RocketmqProxy
