import RocketmqProxy.MatcherLoop

/-!
# No request is slept on for long

The matcher looks at the pool, and only then locks `notifyMtx` and sleeps; `process` notifies
without that lock.  A notification between the two is missed.  The next `notifyTimeout` but
one makes up for it.
-/

namespace RocketmqProxy
namespace MatcherLoop

open RoundRobin

variable {s s' s₁ s₂ s₃ : MatcherLoop} {e : LoopEvent} {es es₁ es₂ es₃ : List LoopEvent}

/-! ## Missed notifications -/

/-- The matcher has found the pool empty, and does not sleep yet. -/
def Falling (s : MatcherLoop) : Prop := s.pc = .lock ∨ s.pc = .wait

instance (s : MatcherLoop) : Decidable s.Falling := inferInstanceAs (Decidable (_ ∨ _))

/-- The notification of a request that waits finds the matcher on its way to its sleep. -/
def Misses (s : MatcherLoop) (e : LoopEvent) : Prop :=
  e = .notify ∧ s.Falling ∧ s.consumeMsgPool ≠ []

instance (s : MatcherLoop) (e : LoopEvent) : Decidable (s.Misses e) :=
  inferInstanceAs (Decidable (_ ∧ _ ∧ _))

/-- The matcher sleeps while a request waits, and `process` has already notified. -/
def Stranded (s : MatcherLoop) : Prop :=
  s.pc = .asleep ∧ s.consumeMsgPool ≠ [] ∧ s.notifying = false

/-- A request that waits while the matcher looks away is about to be announced. -/
def Announced (s : MatcherLoop) : Prop :=
  s.Falling ∨ s.pc = .asleep → s.consumeMsgPool ≠ [] → s.notifying = true

theorem pc_notifyAll (s : MatcherLoop) : s.notifyAll.pc ≠ .asleep := by
  rw [notifyAll]
  split <;> simp_all

theorem falling_notifyAll : s.notifyAll.Falling ↔ s.Falling := by
  rw [Falling, Falling, notifyAll]
  by_cases ha : s.pc = .asleep <;> simp [ha]

theorem Step.announced (h : Step s e s') (hm : ¬ s.Misses e) (ha : Announced s) :
    Announced s' := by
  cases h with
  | push => exact fun _ _ => rfl
  | notify =>
    rintro (hpc | hpc) hp
    · exact absurd ⟨rfl, falling_notifyAll.mp hpc, hp⟩ hm
    · exact absurd hpc (pc_notifyAll s)
  | timeout | wake =>
    rintro (hpc | hpc) hp
    · exact ha (.inl (falling_notifyAll.mp hpc)) hp
    · exact absurd hpc (pc_notifyAll s)
  | empty _ _ hp => exact fun _ hp' => absurd hp hp'
  | lock _ hpc => exact fun _ => ha (.inl (.inl hpc))
  | wait _ hpc => exact fun _ => ha (.inl (.inr hpc))
  | take | back | leave | relock | unlock => rintro ((hpc | hpc) | hpc) <;> cases hpc

/-- What keeps the matcher from the pool until somebody wakes it. -/
theorem Step.stays_away (h : Step s e s') (he : e ≠ .timeout ∧ e ≠ .wake ∧ e ≠ .notify)
    (ha : s.Falling ∨ s.pc = .asleep) (hp : s.consumeMsgPool ≠ []) :
    (s'.Falling ∨ s'.pc = .asleep) ∧ s'.consumeMsgPool ≠ [] := by
  cases h with
  | push => exact ⟨ha, by simp⟩
  | notify => exact absurd rfl he.2.2
  | timeout => exact absurd rfl he.1
  | wake => exact absurd rfl he.2.1
  | lock => exact ⟨.inl (.inr rfl), hp⟩
  | wait => exact ⟨.inr rfl, hp⟩
  | take _ hpc | empty _ hpc | back hpc | leave hpc | relock _ hpc | unlock _ hpc =>
    rcases ha with (ha | ha) | ha <;> cases hpc.symm.trans ha

/-! ## What the matcher takes -/

/-- The unit that a step of the matcher takes from the pool. -/
def takes (s : MatcherLoop) : LoopEvent → List UnitRef
  | .turn _ => if s.pc = .tryPop then s.consumeMsgPool.take 1 else []
  | _ => []

/-- The units that the matcher takes in a run, in order. -/
def taken (s : MatcherLoop) : List LoopEvent → List UnitRef
  | [] => []
  | e :: es => s.takes e ++ ((s.step e).map fun s' => s'.taken es).getD []

theorem taken_cons (h : s.step e = some s') : s.taken (e :: es) = s.takes e ++ s'.taken es := by
  rw [taken, h]
  rfl

theorem taken_append (h : Runs.exec step s es = some s') :
    s.taken (es ++ es₂) = s.taken es ++ s'.taken es₂ := by
  induction es generalizing s with
  | nil =>
    obtain rfl : s = s' := Option.some.inj h
    rfl
  | cons e es ih =>
    obtain ⟨s₁, hs, h⟩ := Option.bind_eq_some_iff.mp h
    rw [List.cons_append, taken_cons hs, taken_cons hs, ih h, List.append_assoc]

/-! ## The pool as a queue -/

/-- The pool, and the matcher as its server. -/
def line (s : MatcherLoop) : Line UnitRef where
  queue := s.consumeMsgPool
  hand :=
    match s.pc with
    | .body u => some u
    | _ => none

/-- The units in the pool and in hand have been made. -/
def Made (s : MatcherLoop) : Prop := ∀ u ∈ s.line.hand.toList ++ s.line.queue, u < s.units

theorem line_of_pc {pc : LoopPc} (h : ∀ u, pc ≠ .body u) (hpc : s.pc = pc) :
    s.line = ⟨s.consumeMsgPool, none⟩ := by
  rw [line, hpc]
  cases pc <;> first | rfl | exact absurd rfl (h _)

theorem line_body {u : UnitRef} (hpc : s.pc = .body u) :
    s.line = ⟨s.consumeMsgPool, some u⟩ := by
  rw [line, hpc]

theorem line_notifyAll (s : MatcherLoop) : s.notifyAll.line = s.line := by
  rw [line, line, notifyAll]
  cases hpc : s.pc <;> rfl

/-- The pool moves as the queue of a round robin does. -/
theorem Step.roundRobin {start : Line UnitRef} {turns : List UnitRef} (h : Step s e s')
    (hr : Run start turns s.line) (hm : s.Made) (hturns : ∀ u ∈ turns, u < s.units) :
    Run start (turns ++ s.takes e) s'.line := by
  have hsame : Run start (turns ++ []) s.line := by rwa [List.append_nil]
  cases h with
  | push =>
    refine Run.arrive hsame (fun hu => ?_) (fun hu => ?_) fun hu => ?_
    · exact Nat.lt_irrefl _ (hm _ (List.mem_append_right _ hu))
    · exact Nat.lt_irrefl _ (hm _ (List.mem_append_left _ (Option.mem_toList.mpr hu)))
    · exact Nat.lt_irrefl _ (hturns _ (List.append_nil turns ▸ hu))
  | notify | timeout | wake => exact (line_notifyAll s).symm ▸ hsame
  | take _ hpc hp =>
    rw [line_of_pc (by simp) hpc, hp] at hr
    rw [takes, if_pos hpc, hp]
    exact hr.take
  | empty back hpc hp =>
    have htakes : s.takes (.turn back) = [] := by
      rw [takes, if_pos hpc, hp]
      rfl
    rw [htakes]
    rwa [line_of_pc (by simp) hpc] at hsame
  | back hpc =>
    rw [takes, if_neg (by simp [hpc])]
    rw [line_body hpc] at hsame
    exact hsame.back
  | leave hpc =>
    rw [takes, if_neg (by simp [hpc])]
    rw [line_body hpc] at hsame
    exact hsame.leave
  | lock _ hpc | wait _ hpc | relock _ hpc | unlock _ hpc =>
    rw [takes, if_neg (by simp [hpc])]
    rwa [line_of_pc (by simp) hpc] at hsame

theorem Step.made (h : Step s e s') (hm : s.Made) :
    s'.Made ∧ s.units ≤ s'.units ∧ ∀ u ∈ s.takes e, u < s'.units := by
  have hnone : s.takes e = [] → ∀ u ∈ s.takes e, u < s'.units := fun he u hu => by
    rw [he] at hu
    cases hu
  cases h with
  | push =>
    refine ⟨fun u hu => ?_, Nat.le_succ _, hnone rfl⟩
    change u ∈ s.line.hand.toList ++ (s.line.queue ++ [s.units]) at hu
    rw [← List.append_assoc] at hu
    rcases List.mem_append.mp hu with hu | hu
    · exact Nat.lt_succ_of_lt (hm u hu)
    · rw [List.mem_singleton.mp hu]
      exact Nat.lt_succ_self _
  | notify | timeout | wake =>
    exact ⟨fun u hu => hm u (line_notifyAll s ▸ hu), Nat.le_refl _, hnone rfl⟩
  | take _ hpc hp =>
    have hold : s.line = ⟨_ :: _, none⟩ := (line_of_pc (by simp) hpc).trans (by rw [hp])
    refine ⟨fun u hu => hm u (hold ▸ hu), Nat.le_refl _, fun u hu => hm u ?_⟩
    rw [takes, if_pos hpc, hp] at hu
    rw [hold]
    exact List.mem_append_right _ (List.mem_of_mem_take hu)
  | empty _ hpc hp =>
    refine ⟨fun u hu => hm u ?_, Nat.le_refl _, hnone (by rw [takes, if_pos hpc, hp]; rfl)⟩
    rw [line_of_pc (by simp) hpc]
    exact hu
  | @back v hpc =>
    refine ⟨fun u hu => hm u ?_, Nat.le_refl _, hnone (if_neg (by simp [hpc]))⟩
    change u ∈ s.consumeMsgPool ++ [v] at hu
    rw [line_body hpc]
    exact List.mem_append.mpr (List.mem_append.mp hu).symm
  | leave hpc =>
    refine ⟨fun u hu => hm u ?_, Nat.le_refl _, hnone (if_neg (by simp [hpc]))⟩
    rw [line_body hpc]
    exact List.mem_cons_of_mem _ hu
  | lock _ hpc | wait _ hpc | relock _ hpc | unlock _ hpc =>
    refine ⟨fun u hu => hm u ?_, Nat.le_refl _, hnone (if_neg (by simp [hpc]))⟩
    rw [line_of_pc (by simp) hpc]
    exact hu

theorem made (h : Reachable s) : s.Made :=
  h.invariant (I := Made) (fun u hu => by cases hu) fun _ _ _ _ hm _ hs =>
    ((step_cases hs).made hm).1

theorem run_taken {start : Line UnitRef} {turns : List UnitRef} (hr : Run start turns s.line)
    (hm : s.Made) (hturns : ∀ u ∈ turns, u < s.units) (h : Runs.exec step s es = some s') :
    Run start (turns ++ s.taken es) s'.line := by
  induction es generalizing s turns with
  | nil =>
    obtain rfl : s = s' := Option.some.inj h
    rwa [taken, List.append_nil]
  | cons e es ih =>
    obtain ⟨s₁, hs, h⟩ := Option.bind_eq_some_iff.mp h
    have hst := step_cases hs
    obtain ⟨hm', hle, hnew⟩ := hst.made hm
    rw [taken_cons hs, ← List.append_assoc]
    refine ih (hst.roundRobin hr hm hturns) hm' (fun u hu => ?_) h
    rcases List.mem_append.mp hu with hu | hu
    · exact Nat.lt_of_lt_of_le (hturns u hu) hle
    · exact hnew u hu

/-- What the matcher takes first is the front of the pool. -/
theorem taken_front (hs : Reachable s) {u : UnitRef} {rest : List UnitRef}
    (hu : s.consumeMsgPool = u :: rest) (h : Runs.exec step s es = some s')
    (hne : s.taken es ≠ []) : ∃ later, s.taken es = u :: later := by
  have hrun := run_taken .nil (made hs) (by simp) h
  rw [List.nil_append] at hrun
  have hq : s.line.queue = [] ++ u :: rest := hu
  exact hrun.first_turn hq (List.length_pos_of_ne_nil hne)

/-! ## How far the matcher is from the pool -/

/-- So many turns until the matcher has looked at the pool, if it is not asleep or falling. -/
def turnsLeft : LoopPc → Nat
  | .tryPop => 1
  | .body _ | .unlock => 2
  | .woken => 3
  | .lock | .wait | .asleep => 0

/-- The matcher is on its way to a pool that is not empty. -/
def Coming (s : MatcherLoop) : Prop := 0 < turnsLeft s.pc ∧ s.consumeMsgPool ≠ []

def isTurn : LoopEvent → Bool
  | .turn _ => true
  | _ => false

theorem not_falling_of_turnsLeft (h : 0 < turnsLeft s.pc) : ¬ s.Falling := by
  rintro (hpc | hpc) <;> rw [hpc] at h <;> exact Nat.lt_irrefl 0 h

theorem turnsLeft_notifyAll (h : ¬ s.Falling) : 0 < turnsLeft s.notifyAll.pc := by
  rw [notifyAll]
  cases hpc : s.pc with
  | lock => exact absurd (.inl hpc) h
  | wait => exact absurd (.inr hpc) h
  | tryPop | body | asleep | woken | unlock => exact Nat.succ_pos _

/-- A step takes a unit, or leaves the matcher coming, and a turn brings it nearer. -/
theorem Step.coming (h : Step s e s') (hc : s.Coming) :
    s.takes e ≠ [] ∨ s'.Coming ∧ turnsLeft s'.pc + (isTurn e).toNat ≤ turnsLeft s.pc := by
  obtain ⟨hpos, hp⟩ := hc
  have hawake : s.pc ≠ .asleep := fun ha => by rw [ha] at hpos; exact Nat.lt_irrefl 0 hpos
  cases h with
  | push => exact .inr ⟨⟨hpos, by simp⟩, Nat.le_refl _⟩
  | notify | timeout =>
    have hsame : s.notifyAll = s := by rw [notifyAll, if_neg hawake]
    exact .inr (by rw [hsame]; exact ⟨⟨hpos, hp⟩, Nat.le_refl _⟩)
  | wake ha => exact absurd ha hawake
  | take _ hpc hq =>
    refine .inl ?_
    rw [takes, if_pos hpc, hq]
    exact List.cons_ne_nil _ _
  | empty _ _ hq => exact absurd hq hp
  | back hpc => exact .inr ⟨⟨Nat.one_pos, by simp⟩, by rw [hpc]; exact Nat.le_refl _⟩
  | leave hpc | unlock _ hpc => exact .inr ⟨⟨Nat.one_pos, hp⟩, by rw [hpc]; exact Nat.le_refl _⟩
  | relock _ hpc => exact .inr ⟨⟨Nat.two_pos, hp⟩, by rw [hpc]; exact Nat.le_refl _⟩
  | lock _ hpc | wait _ hpc => rw [hpc] at hpos; exact absurd hpos (Nat.lt_irrefl 0)

/-- Over a run: as many turns as are left are enough. -/
theorem coming_run (hc : s.Coming) (h : Runs.exec step s es = some s') (hnone : s.taken es = []) :
    s'.Coming ∧ turnsLeft s'.pc + es.countP isTurn ≤ turnsLeft s.pc := by
  induction es generalizing s with
  | nil =>
    obtain rfl : s = s' := Option.some.inj h
    exact ⟨hc, Nat.le_refl _⟩
  | cons e es ih =>
    obtain ⟨s₁, hs, h⟩ := Option.bind_eq_some_iff.mp h
    rw [taken_cons hs, List.append_eq_nil_iff] at hnone
    obtain ⟨hc₁, hle⟩ := ((step_cases hs).coming hc).resolve_left (not_not.mpr hnone.1)
    obtain ⟨hc', hle'⟩ := ih hc₁ h hnone.2
    have hcount : (e :: es).countP isTurn = (isTurn e).toNat + es.countP isTurn := by
      rw [List.countP_cons]
      cases isTurn e <;> simp [Nat.add_comm]
    exact ⟨hc', by omega⟩

/-- Nothing leaves the pool unless it is taken. -/
theorem pool_kept (hp : s.consumeMsgPool ≠ []) (h : Runs.exec step s es = some s')
    (hnone : s.taken es = []) : s'.consumeMsgPool ≠ [] := by
  induction es generalizing s with
  | nil =>
    obtain rfl : s = s' := Option.some.inj h
    exact hp
  | cons e es ih =>
    obtain ⟨s₁, hs, h⟩ := Option.bind_eq_some_iff.mp h
    rw [taken_cons hs, List.append_eq_nil_iff] at hnone
    refine ih ?_ h hnone.2
    cases step_cases hs with
    | take _ hpc hq =>
      rw [takes, if_pos hpc, hq] at hnone
      cases hnone.1
    | push | back => simp
    | notify | timeout | wake | empty | leave | lock | wait | relock | unlock => exact hp

/-! ## Missed notifications and time-outs -/

/-- The matcher sleeps beside a waiting request only if it has missed a notification, and one
that it misses leaves the pool alone until somebody wakes it. -/
theorem stranded_iff_missed :
    (∀ s, Runs.Reach step init (fun s e => ¬ s.Misses e) s → ¬ s.Stranded) ∧
    ∀ (s : MatcherLoop) e s' es s'', s.Misses e → s.step e = some s' →
      Runs.exec step s' es = some s'' → (∀ e ∈ es, e ≠ .timeout ∧ e ≠ .wake ∧ e ≠ .notify) →
        s''.consumeMsgPool ≠ [] ∧ (s''.Falling ∨ s''.pc = .asleep) := by
  refine ⟨fun s h => ?_, fun s e s' es s'' hm hs hes hquiet => ?_⟩
  · have ha : Announced s := h.invariant (I := Announced) (fun hpc => by
      rcases hpc with (hpc | hpc) | hpc <;> cases hpc) fun _ _ _ _ ha hm hs =>
        (step_cases hs).announced hm ha
    rintro ⟨hpc, hp, hn⟩
    rw [ha (.inr hpc) hp] at hn
    cases hn
  · obtain ⟨rfl, hfall, hp⟩ := hm
    have hstart : (s'.Falling ∨ s'.pc = .asleep) ∧ s'.consumeMsgPool ≠ [] := by
      cases step_cases hs with
      | notify => exact ⟨.inl (falling_notifyAll.mpr hfall), hp⟩
    have hstep (s : MatcherLoop) (e : LoopEvent) (s' : MatcherLoop)
        (hi : (s.Falling ∨ s.pc = .asleep) ∧ s.consumeMsgPool ≠ [])
        (he : e ≠ .timeout ∧ e ≠ .wake ∧ e ≠ .notify) (hs : s.step e = some s') :
        (s'.Falling ∨ s'.pc = .asleep) ∧ s'.consumeMsgPool ≠ [] :=
      (step_cases hs).stays_away he hi.1 hi.2
    exact (Runs.exec_invariant hstep hquiet hstart hes).symm

/-- The request comes when the matcher has just found nothing. -/
def missedOnce : List LoopEvent := [.turn true, .push, .notify, .turn true, .turn true]

theorem stranded_iff_missed_once : ∃ s, Runs.exec step init missedOnce = some s ∧ s.Stranded ∧
    ¬ Runs.Reach step init (fun s e => ¬ s.Misses e) s := by
  refine ⟨⟨[0], 1, false, .asleep, false⟩, by decide, ⟨rfl, by decide, rfl⟩, fun h => ?_⟩
  exact stranded_iff_missed.1 _ h ⟨rfl, by decide, rfl⟩

/-- A request at the front of the pool is taken in a run with two time-outs, if the matcher
comes out of its fall between them and has three turns after the second. -/
theorem taken_within_two_timeouts (hs : Reachable s) {u : UnitRef} {rest : List UnitRef}
    (hu : s.consumeMsgPool = u :: rest) (h₁ : Runs.exec step s es₁ = some s₁)
    (h₂ : Runs.exec step s₁ (.timeout :: es₂) = some s₂) (hfall : s₁.Falling → ¬ s₂.Falling)
    (h₃ : Runs.exec step s₂ (.timeout :: es₃) = some s₃) (hturns : 3 ≤ es₃.countP isTurn) :
    ∃ later, s.taken (es₁ ++ (.timeout :: es₂ ++ .timeout :: es₃)) = u :: later := by
  have hrun : Runs.exec step s (es₁ ++ (.timeout :: es₂ ++ .timeout :: es₃)) = some s₃ := by
    rw [Runs.exec_append, h₁, Option.bind_some, Runs.exec_append, h₂, Option.bind_some, h₃]
  refine taken_front hs hu hrun fun hnone => ?_
  rw [taken_append h₁, taken_append h₂, List.append_eq_nil_iff, List.append_eq_nil_iff] at hnone
  obtain ⟨hnone₁, hnone₂, hnone₃⟩ := hnone
  have hp₁ := pool_kept (by simp [hu]) h₁ hnone₁
  have hp₂ := pool_kept hp₁ h₂ hnone₂
  have hawake {x y : MatcherLoop} {es : List LoopEvent} (hp : x.consumeMsgPool ≠ [])
      (h : Runs.exec step x (.timeout :: es) = some y) (hnone : x.taken (.timeout :: es) = [])
      (hf : ¬ x.Falling) : y.Coming ∧ turnsLeft y.pc + es.countP isTurn ≤ 3 := by
    have hcoming : x.notifyAll.Coming := ⟨turnsLeft_notifyAll hf, hp⟩
    have hle : turnsLeft x.notifyAll.pc ≤ 3 := by cases x.notifyAll.pc <;> simp [turnsLeft]
    have hstep : x.step .timeout = some x.notifyAll := rfl
    rw [taken_cons hstep] at hnone
    obtain ⟨hy, hcount⟩ := coming_run hcoming h hnone
    exact ⟨hy, Nat.le_trans hcount hle⟩
  have hf₂ : ¬ s₂.Falling := by
    by_cases hf : s₁.Falling
    · exact hfall hf
    · exact not_falling_of_turnsLeft (hawake hp₁ h₂ hnone₂ hf).1.1
  obtain ⟨hcoming, hcount⟩ := hawake hp₂ h₃ hnone₃ hf₂
  have := hcoming.1
  omega

theorem taken_within_two_timeouts_once : ∃ s, Runs.exec step init missedOnce = some s ∧
    ∃ later, s.taken ([] ++ (.timeout :: [] ++
      .timeout :: [.turn true, .turn true, .turn true])) = 0 :: later := by
  have hexec : Runs.exec step init missedOnce = some ⟨[0], 1, false, .asleep, false⟩ := by decide
  have h₃ : Runs.exec step ⟨[0], 1, false, .woken, false⟩
      (.timeout :: [.turn true, .turn true, .turn true]) =
        some ⟨[], 1, false, .body 0, false⟩ := by decide
  exact ⟨_, hexec, taken_within_two_timeouts (Runs.Reach.init.of_exec hexec) rfl rfl rfl
    (by decide) h₃ (by decide)⟩

end MatcherLoop
end RocketmqProxy
