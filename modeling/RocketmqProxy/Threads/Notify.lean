import RocketmqProxy.Threads.Handshake

/-!
# Lost notifications

`triggerCheck` releases a batch and notifies its callback without the `mtx` of the batch.
An ack gets there when every message of the batch is fetched, and by then the callback is
asleep.  A forced unlock gets there at any time, and a callback that it notifies between
the test of the predicate and the sleep goes to sleep all the same.
-/

namespace RocketmqProxy
namespace UnitThreads

/-- The callback sleeps, its batch is released, and the `triggerCheck` that released it has
notified. -/
def Lost (s : UnitThreads) (b : BatchRef) : Prop :=
  ∃ batch c h₁ h₂, s.batches[b]? = some batch ∧ batch.msgs ≠ [] ∧ batch.pc = .asleep ∧
    batch.record.clientStatus = .msgConsumeAck ∧
    s.trace = h₁ ++ .wrote (.worker c) b (.clientStatus .msgConsumeAck) :: h₂ ∧
    .notified c b ∈ h₂

/-- The step of a forced unlock that notifies the callback of a batch between its test and
its sleep. -/
def Misses (s : UnitThreads) (e : ThreadEvent) (b : BatchRef) : Prop :=
  ∃ c w a batch, e = .turn (.worker c) ∧ s.works[c]? = some w ∧ w.op = .unlockAll ∧
    w.pc = .visit a b .notify ∧ s.batches[b]? = some batch ∧ batch.msgs ≠ [] ∧
    batch.pc = .sleep

/-- No callback wakes up without having been notified. -/
def NotSpurious (e : ThreadEvent) : Prop := ∀ b, e ≠ .wake b

/-- A callback that is awake again has been released, one on its way to its sleep has messages
to be fetched or will see the release, and one that was notified does not sleep. -/
structure Notified (trace : List ThreadObs) (b : BatchRef) (batch : Batch) : Prop where
  woken : batch.pc = .woken → batch.record.clientStatus = .msgConsumeAck
  early : batch.msgs ≠ [] → batch.pc.BeforeSleep → batch.record.fetchedArr ≠ [] ∨
    batch.pc = .test ∧ batch.record.clientStatus = .msgConsumeAck
  notified : batch.msgs ≠ [] → ∀ c, .notified c b ∈ trace →
    batch.record.clientStatus = .msgConsumeAck ∧ batch.pc ≠ .sleep ∧ batch.pc ≠ .asleep

section Notified

variable {trace trace' : List ThreadObs} {b : BatchRef} {x y : Batch}

/-- The trace has no new notification of the batch. -/
def Quiet (trace trace' : List ThreadObs) (b : BatchRef) : Prop :=
  ∀ c, .notified c b ∈ trace' → .notified c b ∈ trace

/-- The callback comes to a step after its sleep. -/
theorem Notified.past (h : Notified trace b x) (hq : Quiet trace trace' b)
    (hr : y.record = x.record) (hm : y.msgs = x.msgs) (hw : y.pc ≠ .woken)
    (hs : ¬ y.pc.BeforeSleep) (ha : y.pc ≠ .asleep) : Notified trace' b y := by
  refine ⟨fun hpc => absurd hpc hw, fun _ hpc => absurd hpc hs, fun hne c hc => ?_⟩
  rw [hr]
  exact ⟨(h.notified (hm ▸ hne) c (hq c hc)).1, fun hpc => hs (hpc ▸ trivial), ha⟩

/-- The callback comes to a step on the first way to its sleep. -/
theorem Notified.before (h : Notified trace b x) (hq : Quiet trace trace' b)
    (hr : y.record = x.record) (hm : y.msgs = x.msgs) (hx : x.pc.BeforeSleep)
    (htest : x.pc ≠ .test) (hw : y.pc ≠ .woken) (hs : y.pc ≠ .sleep) (ha : y.pc ≠ .asleep) :
    Notified trace' b y := by
  refine ⟨fun hpc => absurd hpc hw, fun hne _ => .inl ?_, fun hne c hc => ?_⟩
  · rw [hr]
    exact (h.early (hm ▸ hne) hx).resolve_right fun ht => htest ht.1
  · rw [hr]
    exact ⟨(h.notified (hm ▸ hne) c (hq c hc)).1, hs, ha⟩

theorem Moves.quiet {obs : List ThreadObs} (hm : Moves b x y obs) :
    Quiet trace (trace ++ obs) b := by
  intro c hc
  refine (List.mem_append.mp hc).resolve_right fun hobs => ?_
  cases hm <;> simp at hobs

/-- A step of the callback inside its batch. -/
theorem Notified.moves {obs : List ThreadObs} (h : Notified trace b x) (hm : Moves b x y obs) :
    Notified (trace ++ obs) b y := by
  have hq : Quiet trace (trace ++ obs) b := hm.quiet
  cases hm with
  | lockMtx hpc =>
    exact h.before hq rfl rfl (hpc ▸ trivial) (by simp [hpc]) (by simp) (by simp) (by simp)
  | test hpc =>
    by_cases hack : x.record.clientStatus = .msgConsumeAck
    · simp only [if_pos hack]
      exact h.past hq rfl rfl (by simp) id (by simp)
    · simp only [if_neg hack]
      refine ⟨fun hw => (by cases hw), fun hne _ => .inl ?_, fun hne c hc => ?_⟩
      · exact (h.early hne (hpc ▸ trivial)).resolve_right fun ht => hack ht.2
      · exact absurd (h.notified hne c (hq c hc)).1 hack
  | sleep hpc =>
    refine ⟨fun hw => (by cases hw), fun _ hs => hs.elim, fun hne c hc => ?_⟩
    exact absurd hpc (h.notified hne c (hq c hc)).2.1
  | relock hpc =>
    have hack := h.woken hpc
    exact ⟨fun _ => hack, fun _ _ => .inr ⟨rfl, hack⟩, fun _ _ _ => ⟨hack, by simp, by simp⟩⟩
  | readStatus =>
    by_cases hlater : x.record.status = .reconsumeLater
    · simp only [if_pos hlater]
      exact h.past hq rfl rfl (by simp) id (by simp)
    · simp only [if_neg hlater]
      exact h.past hq rfl rfl (by simp) id (by simp)
  | unlockMtx | readReconsume | readEnd | readResult =>
    exact h.past hq rfl rfl (by simp) id (by simp)

/-- A step of the callback at `lockersMtx` or at the map. -/
theorem Notified.walks {pc : CallbackPc} (h : Notified trace b x) (hq : Quiet trace trace' b)
    (hpc : Walks x.pc pc) : Notified trace' b { x with pc := pc } := by
  generalize hx : x.pc = xpc at hpc
  cases hpc with
  | lock | insert | unlock =>
    exact h.before hq rfl rfl (hx ▸ trivial) (by simp [hx]) (by simp) (by simp) (by simp)
  | lockErase | erase | unlockErase => exact h.past hq rfl rfl (by simp) id (by simp)

theorem Acts.pc_eq {c : WorkRef} {w w' : Work} {pc : BodyPc} {obs : List ThreadObs}
    (h : Acts c w b x pc.action w' y obs) : y.pc = x.pc ∨ pc = .notify := by
  generalize haction : pc.action = action at h
  cases h with
  | none | write | found | lockMtx | unlockMtx | popNone | pop => exact .inl rfl
  | notify => cases pc <;> first | exact .inr rfl | cases haction

theorem Acts.fetchedArr_eq {c : WorkRef} {w w' : Work} {pc : BodyPc} {obs : List ThreadObs}
    (h : Acts c w b x pc.action w' y obs) :
    y.record.fetchedArr = x.record.fetchedArr ∨ pc = .pop := by
  generalize haction : pc.action = action at h
  cases h with
  | none | found | lockMtx | unlockMtx | popNone => exact .inl rfl
  | write r => cases r <;> exact .inl rfl
  | pop => cases pc <;> first | exact .inr rfl | cases haction
  | notify => exact .inl (by rw [wake_record])

/-- A notification finds the callback asleep, or past its sleep. -/
theorem Acts.notified {c c' : WorkRef} {w w' : Work} {pc : BodyPc} {obs : List ThreadObs}
    (h : Acts c w b x pc.action w' y obs) (hmem : .notified c' b ∈ obs) :
    pc = .notify ∧ y.record = x.record ∧ y.pc ≠ .asleep ∧ (y.pc = .sleep → x.pc = .sleep) := by
  generalize haction : pc.action = action at h
  cases h with
  | none | write | found | lockMtx | unlockMtx | popNone | pop => simp at hmem
  | notify =>
    refine ⟨?_, wake_record x, ?_⟩
    · cases pc <;> first | rfl | cases haction
    · unfold Batch.wake
      split
      · exact ⟨by simp, by simp⟩
      · next hpc => exact ⟨hpc, id⟩

end Notified

section Steps

variable {group : String} {s s' : UnitThreads} {e : ThreadEvent}

/-- A step of a call that visits the batch. -/
theorem Notified.acts {c : WorkRef} {w w' : Work} {a : Addr} {b : BatchRef} {pc : BodyPc}
    {x y : Batch} {obs : List ThreadObs} (h : Notified s.trace b x) (hr : Reachable group s)
    (hmiss : ¬ s.Misses (.turn (.worker c)) b) (hc : s.works[c]? = some w)
    (hpc : w.pc = .visit a b pc) (hb : s.batches[b]? = some x)
    (ha : Acts c { w with pc := .visit a b (pc.next x.record) } b x pc.action w' y obs) :
    Notified (s.trace ++ obs) b y := by
  have hvisit := visiting hr c w a b pc x hc hpc hb
  refine ⟨fun hw => ?_, fun hne hearly => ?_, fun hne c' hmem => ?_⟩
  · rcases ha.pc_eq with hsame | rfl
    · exact ha.ages.clientStatus (h.woken (hsame ▸ hw))
    · exact ha.ages.clientStatus (hvisit.released rfl).1
  · have hsame : y.pc = x.pc := by
      refine ha.stays.2.2.resolve_right fun hst => ?_
      rw [hst.2] at hearly
      exact hearly
    rw [hsame] at hearly ⊢
    refine (h.early (ha.ages.msgs ▸ hne) hearly).imp (fun hf => ?_)
      (And.imp_right ha.ages.clientStatus)
    rcases ha.fetchedArr_eq with hf' | rfl
    · exact hf'.symm ▸ hf
    · exact absurd hearly (not_beforeSleep hr hc hpc rfl hb)
  · rw [ha.ages.msgs] at hne
    rcases List.mem_append.mp hmem with hmem | hmem
    · obtain ⟨hack, hsleep, hasleep⟩ := h.notified hne c' hmem
      have hsame : y.pc = x.pc := ha.stays.2.2.resolve_right fun hst => hasleep hst.1
      exact ⟨ha.ages.clientStatus hack, hsame ▸ hsleep, hsame ▸ hasleep⟩
    · obtain ⟨rfl, hrec, hasleep, hsleep⟩ := ha.notified hmem
      refine ⟨hrec ▸ (hvisit.released rfl).1, fun hs => ?_, hasleep⟩
      have hx : x.pc = .sleep := hsleep hs
      have hf : x.record.fetchedArr ≠ [] :=
        (h.early hne (hx ▸ trivial)).resolve_right fun ht => by simp [hx] at ht
      rcases hvisit.justified with hop | hnil
      · exact hmiss ⟨c, w, a, x, rfl, hc, hop, hpc, hb, hne, hx⟩
      · exact hf hnil

/-- What the trace says of the batches. -/
structure Notifies (s : UnitThreads) : Prop where
  known : ∀ c b, .notified c b ∈ s.trace → ∃ x, s.batches[b]? = some x
  notified : ∀ b x, s.batches[b]? = some x → Notified s.trace b x

/-- A new notification of a batch is made at the batch. -/
theorem Step.quiet_or (h : Step s e s') (b : BatchRef) : Quiet s.trace s'.trace b ∨
    ∃ c w a pc x w' y obs, e = .turn (.worker c) ∧ s.works[c]? = some w ∧
      w.pc = .visit a b pc ∧ s.batches[b]? = some x ∧ s'.batches[b]? = some y ∧
      Acts c { w with pc := .visit a b (pc.next x.record) } b x pc.action w' y obs ∧
      s'.trace = s.trace ++ obs := by
  rcases h.trace with ht | ⟨o, ht, -⟩
  · exact .inl fun c hc => ht ▸ hc
  · by_cases ho : ∃ c, o = .notified c b
    · obtain ⟨c, rfl⟩ := ho
      rcases h.emits ht (by simp) with ⟨_, _, _, _, hm⟩ | ⟨c', w, a, b', pc, x, w', y, he, hc, hpc,
        hb, hy, ha⟩
      · cases hm
      · obtain rfl : b' = b := by
          generalize pc.action = action at ha
          cases ha
          rfl
        exact .inr ⟨c', w, a, pc, x, w', y, _, he, hc, hpc, hb, hy, ha, ht⟩
    · refine .inl fun c hc => ?_
      rw [ht] at hc
      exact (List.mem_append.mp hc).resolve_right fun hmem =>
        ho ⟨c, (List.mem_singleton.mp hmem).symm⟩

theorem Step.notified (h : Step s e s') (hr : Reachable group s) (hspur : NotSpurious e)
    (hmiss : ∀ b, ¬ s.Misses e b) (hn : Notifies s) {b : BatchRef} {y : Batch}
    (hy : s'.batches[b]? = some y) : Notified s'.trace b y := by
  rcases h.quiet_or b with hq | ⟨c, w, a, pc, x, w', y', obs, rfl, hc, hpc, hb, hy', ha, ht⟩
  · cases h.batch_cases hy with
    | same hb =>
      have hold := hn.notified b y hb
      exact ⟨hold.woken, hold.early, fun hne c hc => hold.notified hne c (hq c hc)⟩
    | new group addr msgs hb hy =>
      refine hy ▸ ⟨fun hw => (by cases hw), fun hne _ => .inl ?_, fun _ c hc => ?_⟩
      · simpa [Batch.new] using hne
      · obtain ⟨x, hx⟩ := hn.known c b (hq c hc)
        exact absurd (hb.symm.trans hx) (by simp)
    | woken he => exact absurd he (hspur b)
    | walked hb hpc hy => exact hy ▸ (hn.notified b _ hb).walks hq hpc
    | moved hb hm ht => exact ht ▸ (hn.notified b _ hb).moves hm
    | acted he hc hpc hb ha ht =>
      exact ht ▸ (hn.notified b _ hb).acts hr (he ▸ hmiss b) hc hpc hb ha
  · obtain rfl := Option.some.inj (hy.symm.trans hy')
    exact ht ▸ (hn.notified b x hb).acts hr (hmiss b) hc hpc hb ha

theorem Step.notifies (h : Step s e s') (hr : Reachable group s) (hspur : NotSpurious e)
    (hmiss : ∀ b, ¬ s.Misses e b) (hn : Notifies s) : Notifies s' := by
  refine ⟨fun c b hc => ?_, fun b y hy => h.notified hr hspur hmiss hn hy⟩
  rcases h.quiet_or b with hq | ⟨_, _, _, _, _, _, y, _, -, -, -, -, hy, -⟩
  · obtain ⟨x, hx⟩ := hn.known c b (hq c hc)
    exact h.batch_stays hx
  · exact ⟨y, hy⟩

end Steps

/-! ## Runs -/

/-- A forced unlock that misses the callback leaves it asleep. -/
theorem Misses.lost {group : String} {s : UnitThreads} {e : ThreadEvent} {b : BatchRef}
    (hr : Reachable group s) (h : s.Misses e b) : ∃ s₁ s₂, s.step e = some s₁ ∧
      s₁.step (.turn (.callback b)) = some s₂ ∧ s₂.Lost b := by
  obtain ⟨c, w, a, batch, rfl, hc, -, hpc, hb, hne, hsleep⟩ := h
  obtain ⟨hack, hwrote⟩ := (visiting hr c w a b _ batch hc hpc hb).released rfl
  obtain ⟨h₁, h₂, ht⟩ := List.append_of_mem hwrote
  have hwake : batch.wake = batch := by
    rw [Batch.wake, hsleep]
    rfl
  have hnotify : s.step (.turn (.worker c)) =
      some (((s.setWork c { w with pc := .visit a b .iterNext }).setBatch b batch).log
        (.notified c b)) := by
    rw [step, hc, Option.bind_some, workTurn, hpc]
    simp [hb, act, BodyPc.action, BodyPc.next, hwake]
  generalize hs₁ : ((s.setWork c { w with pc := .visit a b .iterNext }).setBatch b batch).log
    (.notified c b) = s₁ at hnotify
  have hb₁ : s₁.batches[b]? = some batch := hs₁ ▸ Heap.set_self hb batch
  refine ⟨s₁, (s₁.setBatch b { batch with mtx := none, pc := .asleep }).log (.slept b), hnotify,
    ?_, ?_⟩
  · rw [step, hb₁, Option.bind_some, callbackTurn, hsleep]
  · refine ⟨{ batch with mtx := none, pc := .asleep }, c, h₁, h₂ ++ [.notified c b, .slept b],
      Heap.set_self hb₁ _, hne, rfl, hack, ?_, by simp⟩
    subst hs₁
    simp [log, setBatch, setWork, ht]

/-- With no spurious wake-ups, a notification is lost only where a forced unlock notifies a
callback between its test and its sleep; and there it always is. -/
theorem release_lost_iff_missed {group : String} {s : UnitThreads} :
    (Runs.Reach step (init group) (fun s e => NotSpurious e ∧ ∀ b, ¬ s.Misses e b) s →
      ∀ b, ¬ s.Lost b) ∧
    (Runs.Reach step (init group) (fun _ e => NotSpurious e) s → ∀ e b, s.Misses e b →
      ∃ s₁ s₂, s.step e = some s₁ ∧ s₁.step (.turn (.callback b)) = some s₂ ∧ s₂.Lost b) := by
  refine ⟨fun h => ?_, fun h e b hm => hm.lost (h.mono fun _ _ _ => trivial)⟩
  have hn : Notifies s := by
    refine h.invariant (I := Notifies) ⟨by simp [init], by simp [init]⟩ fun s e s' hr hn he hs => ?_
    exact (step_cases hs).notifies (hr.mono fun _ _ _ => trivial) he.1 he.2 hn
  rintro b ⟨batch, c, h₁, h₂, hb, hne, hasleep, -, ht, hmem⟩
  have hnot : .notified c b ∈ s.trace :=
    ht ▸ List.mem_append_right _ (List.mem_cons_of_mem _ hmem)
  exact ((hn.notified b batch hb).notified hne c hnot).2.2 hasleep

/-- No wake-up for no reason, and no step of a call while a callback is about to sleep. -/
def calm (s : UnitThreads) : ThreadEvent → Bool
  | .wake _ => false
  | .turn (.worker _) => s.batches.all fun batch => batch.pc ≠ .sleep
  | .callback _ _ | .call _ | .turn (.callback _) => true

theorem not_misses_of_calm {s : UnitThreads} {e : ThreadEvent} (h : s.calm e = true) :
    NotSpurious e ∧ ∀ b, ¬ s.Misses e b := by
  refine ⟨fun b he => ?_, ?_⟩
  · rw [he] at h
    cases h
  · rintro b ⟨c, w, a, batch, rfl, -, -, -, hb, -, hsleep⟩
    have hall := List.all_eq_true.mp h batch (List.mem_of_getElem? hb)
    simp [hsleep] at hall

/-- A forced unlock releases a batch while its callback sleeps. -/
def forcedAsleep : List ThreadEvent :=
  [[.callback 5 [(10, ⟨"m1", "t", "b", 0⟩)]], List.replicate 6 (.turn (.callback 0)),
    [.call .unlockAll], List.replicate 11 (.turn (.worker 0))].flatten

theorem release_lost_iff_missed_forcedAsleep : ∃ s,
    Runs.exec (Runs.restrict step fun s e => s.calm e = true) (init "g") forcedAsleep = some s ∧
    .notified 0 0 ∈ s.trace ∧ ∀ b, ¬ s.Lost b := by
  have hrun : (Runs.exec (Runs.restrict step fun s e => s.calm e = true) (init "g")
      forcedAsleep).map (fun s => decide (.notified 0 0 ∈ s.trace)) = some true := by
    decide
  obtain ⟨s, hs, hmem⟩ := Option.map_eq_some_iff.mp hrun
  have hreach : Runs.Reach step (init "g") (fun s e => NotSpurious e ∧ ∀ b, ¬ s.Misses e b) s :=
    (Runs.Reach.init.of_exec_restrict hs).mono fun _ _ => not_misses_of_calm
  exact ⟨s, hs, of_decide_eq_true hmem, release_lost_iff_missed.1 hreach⟩

/-- A forced unlock releases a batch while its callback is about to sleep. -/
def missedRelease : List ThreadEvent :=
  [[.callback 5 [(10, ⟨"m1", "t", "b", 0⟩)]], List.replicate 5 (.turn (.callback 0)),
    [.call .unlockAll], List.replicate 11 (.turn (.worker 0)), [.turn (.callback 0)]].flatten

/-- The callback sleeps, and the notification of its release has gone by. -/
theorem missedRelease_lost :
    ∃ s, Runs.Reach step (init "g") (fun _ e => NotSpurious e) s ∧ s.Lost 0 := by
  have hrun : (Runs.exec step (init "g") missedRelease).map (fun s =>
      (s.trace.drop 3, s.batches[0]?.map fun x =>
        (x.msgs.isEmpty, x.pc, x.record.clientStatus))) =
      some ([.wrote (.worker 0) 0 (.clientStatus .msgConsumeAck), .notified 0 0, .slept 0],
        some (false, .asleep, .msgConsumeAck)) := by
    decide
  obtain ⟨s, hs, hval⟩ := Option.map_eq_some_iff.mp hrun
  obtain ⟨htrace, hbatch⟩ := Prod.mk.inj hval
  obtain ⟨x, hx, hval⟩ := Option.map_eq_some_iff.mp hbatch
  obtain ⟨hmsgs, hrest⟩ := Prod.mk.inj hval
  obtain ⟨hpc, hack⟩ := Prod.mk.inj hrest
  refine ⟨s, Runs.Reach.init.of_exec_of_forall (fun e he _ b hw => ?_) hs, x, 0, s.trace.take 3,
    [.notified 0 0, .slept 0], hx, ?_, hpc, hack, ?_, by simp⟩
  · have hall : ∀ e ∈ missedRelease, ∀ b, e ≠ .wake b := by simp [missedRelease]
    exact hall e he b hw
  · rintro hnil
    rw [hnil] at hmsgs
    cases hmsgs
  · rw [← htrace, List.take_append_drop]

end UnitThreads
end RocketmqProxy
