import RocketmqProxy.Lib.History
import RocketmqProxy.Threads.Mutexes
import RocketmqProxy.Threads.Trace

/-!
# The handshake of a callback and a fetch

A callback holds the `mtx` of its batch from before the batch can be visited until it
sleeps, and `getMsg` pops with that `mtx` locked.  So the first message of a batch is
fetched after the callback has begun to sleep, unless a forced unlock has sent the callback
past its sleep.
-/

namespace RocketmqProxy

open ConsumerUnitLocker

/-! ## The parts of the body -/

/-- The functions that a thread runs at a batch. -/
inductive Phase
  | setting
  | unlocking
  | checking (forced : Bool)
  /-- In `triggerCheck`, past its first test. -/
  | releasing
  | fetching
  | leaving
deriving DecidableEq, Repr

def BodyPc.phase : BodyPc → Phase
  | .find _ _ | .setStatus _ _ _ | .setClientStatus _ _ _ | .setReconsume _ _ _ | .found => .setting
  | .unlockBegin | .unlockTest _ | .unlockClientStatus _ | .unlockStatus _ => .unlocking
  | .check forced => .checking forced
  | .scan _ _ | .release _ | .releaseClient | .notify => .releasing
  | .lockMtx | .pop | .unlockMtx _ => .fetching
  | .iterNext | .break => .leaving

/-- How one part leads to another, at the batch `l`. -/
inductive Phase.Leads (l : ConsumerUnitLocker) : Phase → Phase → Prop
  | stay (p : Phase) : Leads l p p
  | set : Leads l .setting (.checking false)
  | unlock : Leads l .unlocking (.checking true)
  | release {forced : Bool} (h : forced = true ∨ l.fetchedArr = []) :
      Leads l (.checking forced) .releasing
  | leave (p : Phase) : Leads l p .leaving

theorem BodyPc.leads_setNext (l : ConsumerUnitLocker) (msgId : String) (s : ConsumeStatus)
    (p : Addr) : Phase.Leads l .setting (setNext l msgId s p).phase := by
  unfold setNext
  split <;> exact .stay _

theorem BodyPc.leads_unlockNext (l : ConsumerUnitLocker) (p : Addr) :
    Phase.Leads l .unlocking (unlockNext l p).phase := by
  unfold unlockNext
  split
  · exact .stay _
  · exact .unlock

theorem BodyPc.leads (l : ConsumerUnitLocker) (pc : BodyPc) :
    Phase.Leads l pc.phase (pc.next l).phase := by
  cases pc with
  | find =>
    rw [next]
    split
    · exact .stay _
    · exact .set
  | setClientStatus =>
    rw [next]
    split
    · exact .stay _
    · exact leads_setNext _ _ _ _
  | setReconsume => exact leads_setNext _ _ _ _
  | unlockBegin =>
    rw [next]
    split
    · exact .stay _
    · exact .unlock
  | unlockTest =>
    rw [next]
    split
    · exact .stay _
    · exact leads_unlockNext _ _
  | unlockStatus => exact leads_unlockNext _ _
  | check forced =>
    rw [next]
    split
    · exact .leave _
    · next hcheck =>
      have hor : forced = true ∨ l.fetchedArr = [] := by
        cases forced <;> simp_all
      split <;> exact .release hor
  | scan =>
    rw [next]
    split
    · exact .leave _
    · dsimp only
      split <;> exact .stay _
  | notify => exact .leave _
  | unlockMtx =>
    rw [next]
    split <;> exact .leave _
  | found => exact .set
  | setStatus | unlockClientStatus | release | releaseClient | lockMtx | pop | iterNext
  | «break» => exact .stay _

/-- The callback is on its way to the sleep in `cv.wait`. -/
def CallbackPc.BeforeSleep : CallbackPc → Prop
  | .lock | .insert | .lockMtx | .unlock | .test | .sleep => True
  | _ => False

namespace UnitThreads

open Mutexes (Owned)
open SharedMutex (Exact)

/-- What brings a call to its part of the body. -/
def Justified (op : Op) (l : ConsumerUnitLocker) : Phase → Prop
  | .unlocking | .checking true => op = .unlockAll
  | .releasing => op = .unlockAll ∨ l.fetchedArr = []
  | .setting | .checking false | .fetching | .leaving => True

theorem Justified.leads {op : Op} {l : ConsumerUnitLocker} {p p' : Phase}
    (h : Justified op l p) (hl : Phase.Leads l p p') : Justified op l p' := by
  cases hl with
  | stay => exact h
  | set | leave => trivial
  | unlock => exact h
  | @release forced hf =>
    cases forced with
    | true => exact .inl h
    | false => exact .inr (hf.resolve_left (by simp))

theorem Justified.mono {op : Op} {l l' : ConsumerUnitLocker} {p : Phase} (h : Justified op l p)
    (hl : l.fetchedArr = [] → l'.fetchedArr = []) : Justified op l' p := by
  cases p with
  | releasing => exact h.imp_right hl
  | checking forced => cases forced <;> exact h
  | setting | unlocking | fetching | leaving => exact h

theorem justified_body (op : Op) (l : ConsumerUnitLocker) : Justified op l op.body.phase := by
  cases op <;> trivial

/-- A call is where its function takes it: a batch is released by a forced unlock, or when
all of its messages have been fetched.  A call that is about to notify has released. -/
structure Visiting (trace : List ThreadObs) (c : WorkRef) (b : BatchRef) (l : ConsumerUnitLocker)
    (op : Op) (pc : BodyPc) : Prop where
  justified : Justified op l pc.phase
  released : pc = .notify → l.clientStatus = .msgConsumeAck ∧
    .wrote (.worker c) b (.clientStatus .msgConsumeAck) ∈ trace

theorem next_eq_notify {l : ConsumerUnitLocker} {pc : BodyPc} (h : pc.next l = .notify) :
    pc = .releaseClient := by
  have hleads : Phase.Leads l pc.phase .releasing := by
    have hl := pc.leads l
    rwa [h] at hl
  cases pc with
  | releaseClient => rfl
  | release | notify => cases h
  | check =>
    rw [BodyPc.next] at h
    split at h
    · cases h
    · split at h <;> cases h
  | scan =>
    rw [BodyPc.next] at h
    split at h
    · cases h
    · dsimp only at h
      split at h <;> cases h
  | find | setStatus | setClientStatus | setReconsume | found | unlockBegin | unlockTest
  | unlockClientStatus | unlockStatus | lockMtx | pop | unlockMtx | iterNext | «break» => cases hleads

theorem Acts.visiting {trace : List ThreadObs} {c : WorkRef} {b : BatchRef} {op : Op}
    {pc : BodyPc} {w w' : Work} {x y : Batch} {obs : List ThreadObs}
    (ha : Acts c w b x pc.action w' y obs) (h : Visiting trace c b x.record op pc) :
    Visiting (trace ++ obs) c b y.record op (pc.next x.record) := by
  refine ⟨(h.justified.leads (pc.leads _)).mono ha.ages.fetchedArr, fun hn => ?_⟩
  obtain rfl := next_eq_notify hn
  cases ha with
  | write => exact ⟨rfl, List.mem_append_right _ (List.mem_singleton_self _)⟩

theorem Step.visiting {s s' : UnitThreads} {e : ThreadEvent} (h : Step s e s') (hr : Registry s)
    (hv : s.Visits Visiting) : s'.Visits Visiting := by
  refine h.visits (fun _ _ _ l op => ⟨justified_body op l, fun hn => ?_⟩)
    (fun _ _ _ _ _ _ _ _ _ _ ha hp => ha.visiting hp)
    (fun _ _ _ _ _ _ _ _ hages ht hp => ⟨hp.justified.mono hages.fetchedArr, fun hn => ?_⟩) hr hv
  · cases op <;> cases hn
  · exact ⟨hages.clientStatus (hp.released hn).1, ht (hp.released hn).2⟩

theorem visiting {group : String} {s : UnitThreads} (h : Reachable group s) :
    s.Visits Visiting :=
  h.invariant (fun c w a b pc batch hc => by cases hc) fun _ _ _ hr hv _ hs =>
    (step_cases hs).visiting (registry hr) hv

/-! ## The callback before its sleep -/

section BeforeSleep

variable {group : String} {s s' : UnitThreads} {e : ThreadEvent} {c : WorkRef} {w : Work}
  {a : Addr} {b : BatchRef} {pc : BodyPc} {batch : Batch}

/-- No batch is visited with its `mtx` locked while its callback is on the way to its sleep:
the callback holds `lockersMtx`, or it holds that `mtx`. -/
theorem not_beforeSleep (h : Reachable group s) (hc : s.works[c]? = some w)
    (hpc : w.pc = .visit a b pc) (hm : pc.holdsMtx = true) (hb : s.batches[b]? = some batch) :
    ¬ batch.pc.BeforeSleep := by
  have hreg : batch.pc.Registered := by
    obtain ⟨x, hx, -, hreg⟩ := (registry h).registered a b ((registry h).visits c w a b pc hc hpc)
    obtain rfl := Option.some.inj (hb.symm.trans hx)
    exact hreg
  have hout : ¬ batch.pc.Inside := fun hin =>
    no_visit_of_inside (respects h) hb hin hc (hpc ▸ trivial)
  have hmtx : batch.pc.holdsMtx = false := by
    refine Bool.eq_false_iff.mpr fun hholds => ?_
    have hworker : s.heldMtx (.worker c) = some b := by
      rw [heldMtx, view_worker hc, workMtx_visit hpc, if_pos hm]
    have hcallback : s.heldMtx (.callback b) = some b := by
      rw [heldMtx, view_callback hb, callbackMtx, if_pos hholds]
    have howner := ((owned h b _).mpr hworker).symm.trans ((owned h b _).mpr hcallback)
    cases howner
  intro hearly
  cases hcpc : batch.pc <;> rw [hcpc] at hearly hreg hout hmtx
  case lock | insert => exact hreg
  case lockMtx => exact hout trivial
  case unlock | test | sleep => cases hmtx
  all_goals exact hearly

end BeforeSleep

/-! ## Runs without a forced unlock -/

/-- Until its callback sleeps, a batch has its callback on the way there or has nothing to
fetch; and while there is something to fetch, it is not released. -/
structure Unfetched (trace : List ThreadObs) (b : BatchRef) (batch : Batch) : Prop where
  early : .slept b ∉ trace → batch.pc.BeforeSleep ∨ batch.record.fetchedArr = []
  unreleased : batch.record.fetchedArr ≠ [] → batch.record.clientStatus ≠ .msgConsumeAck

theorem Acts.clientStatus {c : WorkRef} {w w' : Work} {b : BatchRef} {x y : Batch}
    {pc : BodyPc} {obs : List ThreadObs} (h : Acts c w b x pc.action w' y obs) :
    y.record.clientStatus = x.record.clientStatus ∨ pc = .releaseClient := by
  generalize haction : pc.action = action at h
  cases h with
  | none | found | lockMtx | unlockMtx | popNone => exact .inl rfl
  | write r =>
    cases r with
    | statusMap | clientStatusMap | reconsumeMap | status => exact .inl rfl
    | clientStatus cs => exact .inr (action_clientStatus haction).1
  | pop hg =>
    obtain ⟨rest, -, rfl⟩ := ConsumerUnitLocker.getMsg_eq_some hg
    exact .inl rfl
  | notify => exact .inl (by rw [wake_record])

/-- A callback that leaves its way to the sleep without having slept has found the batch
released. -/
theorem Unfetched.moves {trace : List ThreadObs} {b : BatchRef} {x y : Batch}
    {obs : List ThreadObs} (h : Unfetched trace b x) (hm : Moves b x y obs) :
    Unfetched (trace ++ obs) b y := by
  refine ⟨fun hs => ?_, by rw [hm.record]; exact h.unreleased⟩
  have hx := h.early fun hmem => hs (List.mem_append_left _ hmem)
  rw [hm.record]
  cases hm with
  | lockMtx | relock => exact .inl trivial
  | test hpc =>
    by_cases hack : x.record.clientStatus = .msgConsumeAck
    · exact .inr (by_contra fun hf => h.unreleased hf hack)
    · rw [if_neg hack]
      exact .inl trivial
  | sleep => exact absurd (List.mem_append_right _ (List.mem_singleton_self _)) hs
  | unlockMtx hpc | readStatus hpc | readReconsume hpc | readEnd hpc | readResult hpc =>
    rw [hpc] at hx
    exact .inr (hx.resolve_left id)

section Unfetched

variable {group : String} {s s' : UnitThreads} {e : ThreadEvent}

theorem Step.unfetched (h : Step s e s') (hr : Reachable group s)
    (hop : .unlockAll ∉ s.works.map Work.op)
    (hu : ∀ b batch, s.batches[b]? = some batch → Unfetched s.trace b batch) (b : BatchRef)
    (y : Batch) (hy : s'.batches[b]? = some y) : Unfetched s'.trace b y := by
  have hslept (hs : .slept b ∉ s'.trace) : .slept b ∉ s.trace :=
    fun hmem => hs (h.trace_subset hmem)
  cases h.batch_cases hy with
  | same hb => exact ⟨fun hs => (hu b y hb).early (hslept hs), (hu b y hb).unreleased⟩
  | new _ _ _ _ hy =>
    refine hy ▸ ⟨fun _ => .inl trivial, fun _ => ?_⟩
    simp [Batch.new]
  | woken _ hb ha hy =>
    refine hy ▸ ⟨fun hs => ?_, by rw [wake_record]; exact (hu b _ hb).unreleased⟩
    have hx := (hu b _ hb).early (hslept hs)
    rw [ha] at hx
    rw [wake_record]
    exact .inr (hx.resolve_left id)
  | @walked x pc hb hpc hy =>
    refine hy ▸ ⟨fun hs => ?_, (hu b _ hb).unreleased⟩
    have hx := (hu b _ hb).early (hslept hs)
    generalize x.pc = xpc at hpc hx
    cases hpc with
    | lock | insert | unlock => exact .inl trivial
    | lockErase | erase | unlockErase => exact .inr (hx.resolve_left id)
  | moved hb hm ht => exact ht ▸ (hu b _ hb).moves hm
  | @acted x c w w' a pc obs _ hc hpc hb ha =>
    refine ⟨fun hs => ?_, fun hf => ?_⟩
    · refine ((hu b x hb).early (hslept hs)).imp (fun hx => ?_) ha.ages.fetchedArr
      rcases ha.stays.2.2 with hst | ⟨hst, -⟩
      · exact hst ▸ hx
      · rw [hst] at hx
        exact hx.elim
    · have hf' : x.record.fetchedArr ≠ [] := fun hnil => hf (ha.ages.fetchedArr hnil)
      rcases ha.clientStatus with hst | rfl
      · rw [hst]
        exact (hu b x hb).unreleased hf'
      · have hwhy := (UnitThreads.visiting hr c w a b _ x hc hpc hb).justified
        rcases hwhy with hforced | hnil
        · exact absurd (List.mem_map.mpr ⟨w, List.mem_of_getElem? hc, hforced⟩) hop
        · exact absurd hnil hf'

/-- What a fetch takes it pops with the `mtx` of the batch locked. -/
theorem Step.fetched (h : Step s e s') {c : WorkRef} {b : BatchRef} {msg : MsgPtr}
    (ht : s'.trace = s.trace ++ [.fetched c b msg]) : ∃ w a batch, s.works[c]? = some w ∧
      w.pc = .visit a b .pop ∧ s.batches[b]? = some batch ∧ batch.record.fetchedArr ≠ [] := by
  rcases h.emits ht (by simp) with ⟨_, _, _, _, hm⟩ | ⟨c', w, a, b', pc, x, w', y, -, hc, hpc,
    hb, -, ha⟩
  · cases hm
  · generalize haction : pc.action = action at ha
    cases ha with
    | pop hg =>
      obtain rfl : pc = .pop := by cases pc <;> first | rfl | cases haction
      obtain ⟨rest, hrest, -⟩ := ConsumerUnitLocker.getMsg_eq_some hg
      exact ⟨w, a, x, hc, hpc, hb, by simp [hrest]⟩

/-- Every message of a batch is fetched after the callback of the batch has begun to sleep. -/
def FetchedAsleep (trace : List ThreadObs) : Prop :=
  ∀ h₁ c b msg h₂, trace = h₁ ++ .fetched c b msg :: h₂ → .slept b ∈ h₁

theorem Step.fetchedAsleep (h : Step s e s') (hr : Reachable group s)
    (hu : ∀ b batch, s.batches[b]? = some batch → Unfetched s.trace b batch)
    (hf : FetchedAsleep s.trace) : FetchedAsleep s'.trace := by
  rcases h.trace with ht | ⟨o, ht, -⟩
  · exact ht ▸ hf
  · intro h₁ c b msg h₂ he
    rcases History.concat_eq_append_cons (ht.symm.trans he) with ⟨h₂', -, hold⟩ | ⟨-, rfl, rfl⟩
    · exact hf h₁ c b msg h₂' hold
    · obtain ⟨w, a, batch, hc, hpc, hb, hne⟩ := h.fetched ht
      refine by_contra fun hs => ?_
      rcases (hu b batch hb).early hs with hearly | hnil
      · exact not_beforeSleep hr hc hpc rfl hb hearly
      · exact hne hnil

end Unfetched

/-- In every run of callbacks, fetches and acks, a message is obtained from a batch only after
the callback of that batch has released `mtx` in `cv.wait`. -/
theorem fetched_asleep {group : String} {s : UnitThreads}
    (h : Runs.Reach step (init group) (fun _ e => e ≠ .call .unlockAll) s) :
    FetchedAsleep s.trace := by
  have hI : .unlockAll ∉ s.works.map Work.op ∧
      (∀ b batch, s.batches[b]? = some batch → Unfetched s.trace b batch) ∧
      FetchedAsleep s.trace := by
    refine h.invariant (I := fun s => .unlockAll ∉ s.works.map Work.op ∧
      (∀ b batch, s.batches[b]? = some batch → Unfetched s.trace b batch) ∧
      FetchedAsleep s.trace) ⟨by simp [init], by simp [init], by simp [init, FetchedAsleep]⟩ ?_
    intro s e s' hr hi he hs
    obtain ⟨hop, hu, hf⟩ := hi
    have hr' : Reachable group s := hr.mono fun _ _ _ => trivial
    have hstep := step_cases hs
    refine ⟨?_, hstep.unfetched hr' hop hu, hstep.fetchedAsleep hr' hu hf⟩
    rcases hstep.ops with hops | ⟨op, rfl, hops⟩
    · exact hops ▸ hop
    · rw [hops, List.mem_append, not_or, List.mem_singleton]
      exact ⟨hop, fun hop' => he (hop' ▸ rfl)⟩
  exact hI.2.2

/-- A fetch comes to the batch before the callback sleeps, and has to wait. -/
def fetchedOnce : List ThreadEvent :=
  [[.callback 5 [(10, ⟨"m1", "t", "b", 0⟩)]], List.replicate 4 (.turn (.callback 0)),
    [.call .fetchAndConsume], List.replicate 2 (.turn (.worker 0)),
    List.replicate 2 (.turn (.callback 0)), List.replicate 5 (.turn (.worker 0))].flatten

theorem fetched_asleep_fetchedOnce : ∃ s, Runs.exec step (init "g") fetchedOnce = some s ∧
    (∃ msg, .fetched 0 0 msg ∈ s.trace) ∧ FetchedAsleep s.trace := by
  have hrun : (Runs.exec step (init "g") fetchedOnce).map (fun s =>
      s.trace.any fun o => match o with | .fetched 0 0 _ => true | _ => false) = some true := by
    decide
  obtain ⟨s, hs, hany⟩ := Option.map_eq_some_iff.mp hrun
  refine ⟨s, hs, ?_, fetched_asleep (Runs.Reach.init.of_exec_of_forall (fun e he _ => ?_) hs)⟩
  · obtain ⟨o, ho, hmatch⟩ := List.any_eq_true.mp hany
    split at hmatch
    · exact ⟨_, ho⟩
    · cases hmatch
  · have hall : ∀ e ∈ fetchedOnce, e ≠ .call .unlockAll := by decide
    exact hall e he

end UnitThreads
end RocketmqProxy
