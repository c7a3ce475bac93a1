import RocketmqProxy.Threads.Mutexes

/-!
# No deadlock

A thread asks for `lockersMtx` while it holds no lock, and for the `mtx` of a batch while
nobody that holds that `mtx` asks for anything.  So the threads that wait for one another
are ranked by what they ask for.
-/

namespace RocketmqProxy
namespace UnitThreads

open Mutexes (Owned)
open SharedMutex (Mode Exact)

/-! ## What a thread asks for -/

def workRequests (w : Work) : Option Mode := if w.pc = .lock then some w.op.mode else none

def callbackRequests (batch : Batch) : Option Mode :=
  if batch.pc = .lock ∨ batch.pc = .lockErase then some .exclusive else none

/-- How a thread is about to lock `lockersMtx`. -/
def requests (s : UnitThreads) : Tid → Option Mode := s.view workRequests fun _ => callbackRequests

def workRequestsMtx (w : Work) : Option BatchRef :=
  match w.pc with
  | .visit _ b .lockMtx => some b
  | _ => none

def callbackRequestsMtx (b : BatchRef) (batch : Batch) : Option BatchRef :=
  if batch.pc = .lockMtx ∨ batch.pc = .woken then some b else none

/-- The batch whose `mtx` a thread is about to lock. -/
def requestsMtx (s : UnitThreads) : Tid → Option BatchRef :=
  s.view workRequestsMtx callbackRequestsMtx

/-- The thread `t` is blocked by `t'`. -/
inductive WaitsFor (s : UnitThreads) (t t' : Tid) : Prop
  | lockers {md md' : Mode} (hr : s.requests t = some md) (hh : s.lockersMtx.Holds md' t')
      (hmd : md = .exclusive ∨ md' = .exclusive)
  /-- A thread that waits for exclusive access holds off new shared ones. -/
  | heldOff (hr : s.requests t = some .shared) (hr' : s.requests t' = some .exclusive)
  | mtx {b : BatchRef} (hr : s.requestsMtx t = some b) (hb : s.owner b = some t')

/-! ## Ranks -/

/-- Threads that wait for shared access come before those that wait for exclusive access,
these before those that wait for the `mtx` of a batch, and these before the others. -/
def rank (s : UnitThreads) (t : Tid) : Nat :=
  match s.requests t with
  | some .shared => 3
  | some .exclusive => 2
  | none => if (s.requestsMtx t).isSome then 1 else 0

section Rank

variable {s : UnitThreads} {t : Tid} {md : Mode} {b : BatchRef}

theorem rank_of_requests (h : s.requests t = some md) :
    s.rank t = if md = .shared then 3 else 2 := by
  rw [rank, h]
  cases md <;> rfl

theorem rank_of_requests_none (h : s.requests t = none) :
    s.rank t = if (s.requestsMtx t).isSome then 1 else 0 := by
  rw [rank, h]

theorem requests_of_mode (h : s.mode t = some md) : s.requests t = none := by
  cases t with
  | worker c =>
    obtain ⟨w, hc, hw⟩ := Option.bind_eq_some_iff.mp h
    rw [requests, view_worker hc, workRequests, if_neg]
    intro hpc
    rw [workMode, hpc] at hw
    cases hw
  | callback b =>
    obtain ⟨batch, hb, hbatch⟩ := Option.bind_eq_some_iff.mp h
    rw [requests, view_callback hb, callbackRequests, if_neg]
    rintro (hpc | hpc) <;> rw [callbackMode, hpc] at hbatch <;> cases hbatch

theorem requests_of_requestsMtx (h : s.requestsMtx t = some b) : s.requests t = none := by
  cases t with
  | worker c =>
    obtain ⟨w, hc, hw⟩ := Option.bind_eq_some_iff.mp h
    rw [requests, view_worker hc, workRequests, if_neg]
    intro hpc
    rw [workRequestsMtx, hpc] at hw
    cases hw
  | callback b' =>
    obtain ⟨batch, hb, hbatch⟩ := Option.bind_eq_some_iff.mp h
    rw [requests, view_callback hb, callbackRequests, if_neg]
    rintro (hpc | hpc) <;> rw [callbackRequestsMtx, hpc] at hbatch <;> cases hbatch

theorem requests_of_heldMtx (h : s.heldMtx t = some b) :
    s.requests t = none ∧ s.requestsMtx t = none := by
  cases t with
  | worker c =>
    obtain ⟨w, hc, hw⟩ := Option.bind_eq_some_iff.mp h
    rw [requests, requestsMtx, view_worker hc, view_worker hc]
    unfold workMtx at hw
    split at hw
    · next a b' pc hpc =>
      obtain ⟨hm, -⟩ := Option.ite_none_right_eq_some.mp hw
      rw [workRequests, workRequestsMtx, hpc]
      cases pc with
      | pop | unlockMtx => exact ⟨rfl, rfl⟩
      | _ => cases hm
    · cases hw
  | callback b' =>
    obtain ⟨batch, hb, hbatch⟩ := Option.bind_eq_some_iff.mp h
    obtain ⟨hm, -⟩ := Option.ite_none_right_eq_some.mp hbatch
    rw [requests, requestsMtx, view_callback hb, view_callback hb, callbackRequests,
      callbackRequestsMtx]
    cases hpc : batch.pc with
    | unlock | test | sleep | unlockMtx => exact ⟨rfl, rfl⟩
    | _ => rw [hpc] at hm; cases hm

/-- Whoever blocks a thread is of a lower rank. -/
theorem WaitsFor.rank_lt (hx : Exact s.lockersMtx s.mode) (ho : Owned s.owner s.heldMtx)
    {t' : Tid} (h : s.WaitsFor t t') : s.rank t' < s.rank t := by
  cases h with
  | lockers hr hh =>
    have hnone : s.requests t' = none := requests_of_mode ((hx.holds _ _).mp hh)
    rw [rank_of_requests hr, rank_of_requests_none hnone]
    split <;> split <;> omega
  | heldOff hr hr' =>
    rw [rank_of_requests hr, rank_of_requests hr']
    decide
  | mtx hr hb =>
    obtain ⟨hnone, hmtx⟩ := requests_of_heldMtx ((ho _ _).mp hb)
    rw [rank_of_requests_none hnone, rank_of_requests_none (requests_of_requestsMtx hr), hr, hmtx]
    exact Nat.zero_lt_one

end Rank

/-! ## Blocked threads -/

section Blocked

variable {s : UnitThreads} {t : Tid}

/-- A thread that cannot lock `lockersMtx` waits for one that holds it. -/
theorem waitsFor_of_requests {md : Mode} (hr : s.requests t = some md)
    (hs : s.step (.turn t) = none) : ∃ t', s.WaitsFor t t' := by
  have hlock : s.lockersMtx.lock md t = none := by
    cases t with
    | worker c =>
      obtain ⟨w, hc, hw⟩ := Option.bind_eq_some_iff.mp hr
      obtain ⟨hpc, hmd⟩ := Option.ite_none_right_eq_some.mp hw
      obtain rfl := Option.some.inj hmd
      rw [step, hc, Option.bind_some, workTurn, hpc] at hs
      exact Option.map_eq_none_iff.mp hs
    | callback b =>
      obtain ⟨batch, hb, hbatch⟩ := Option.bind_eq_some_iff.mp hr
      obtain ⟨hpc, hmd⟩ := Option.ite_none_right_eq_some.mp hbatch
      obtain rfl := Option.some.inj hmd
      rw [step, hb, Option.bind_some, callbackTurn] at hs
      rcases hpc with hpc | hpc <;> rw [hpc] at hs <;> exact Option.map_eq_none_iff.mp hs
  obtain ⟨t', md', hh, hmd⟩ := SharedMutex.conflict_of_lock hlock
  exact ⟨t', .lockers hr hh hmd⟩

/-- A thread that cannot lock the `mtx` of a batch waits for its owner. -/
theorem waitsFor_of_requestsMtx (hreg : Registry s) {b : BatchRef}
    (hr : s.requestsMtx t = some b) (hs : s.step (.turn t) = none) : ∃ t', s.WaitsFor t t' := by
  have hmtx : ∃ batch, s.batches[b]? = some batch ∧ batch.mtx ≠ none := by
    cases t with
    | worker c =>
      obtain ⟨w, hc, hw⟩ := Option.bind_eq_some_iff.mp hr
      unfold workRequestsMtx at hw
      split at hw
      · next a b' hpc =>
        obtain rfl := Option.some.inj hw
        obtain ⟨batch, hb, -⟩ := hreg.registered a b' (hreg.visits c w a b' _ hc hpc)
        refine ⟨batch, hb, fun hm => ?_⟩
        rw [step, hc, Option.bind_some, workTurn, hpc] at hs
        simp [hb, act, BodyPc.action, hm] at hs
      · cases hw
    | callback b' =>
      obtain ⟨batch, hb, hbatch⟩ := Option.bind_eq_some_iff.mp hr
      obtain ⟨hpc, hb'⟩ := Option.ite_none_right_eq_some.mp hbatch
      obtain rfl := Option.some.inj hb'
      refine ⟨batch, hb, fun hm => ?_⟩
      rw [step, hb, Option.bind_some, callbackTurn] at hs
      rcases hpc with hpc | hpc <;> rw [hpc] at hs <;> simp [hm] at hs
  obtain ⟨batch, hb, hm⟩ := hmtx
  obtain ⟨t', ht'⟩ := Option.ne_none_iff_exists'.mp hm
  exact ⟨t', .mtx hr ((owner_batch hb).trans ht')⟩

end Blocked

/-- Threads blocked by one another are never in a cycle. -/
theorem no_deadlock {group : String} {s : UnitThreads} (h : Reachable group s) (t : Tid) :
    ¬ Relation.TransGen s.WaitsFor t t :=
  Mutexes.no_cycle (fun _ _ hw => hw.rank_lt (exact_mode h) (owned h)) t

/-- A fetch waits for a batch the callback of which is not asleep yet, the callback of a
second batch waits for the fetch, and another fetch is held off. -/
def waitingChain : List ThreadEvent :=
  [[.callback 5 [(10, ⟨"m1", "t", "b", 0⟩)], .callback 6 [(11, ⟨"m2", "t", "b", 0⟩)]],
    List.replicate 4 (.turn (.callback 0)), [.call .fetchAndConsume, .call .fetchAndConsume],
    List.replicate 2 (.turn (.worker 0))].flatten

theorem no_deadlock_waitingChain : ∃ s, Runs.exec step (init "g") waitingChain = some s ∧
    s.WaitsFor (.worker 1) (.callback 1) ∧ s.WaitsFor (.callback 1) (.worker 0) ∧
    s.WaitsFor (.worker 0) (.callback 0) ∧ ∀ t, ¬ Relation.TransGen s.WaitsFor t t := by
  have hrun : (Runs.exec step (init "g") waitingChain).map (fun s => decide
      (s.requests (.worker 1) = some .shared ∧ s.requests (.callback 1) = some .exclusive ∧
        s.lockersMtx = .shared [.worker 0] ∧ s.requestsMtx (.worker 0) = some 0 ∧
        s.owner 0 = some (.callback 0))) = some true := by
    decide
  obtain ⟨s, hs, hval⟩ := Option.map_eq_some_iff.mp hrun
  obtain ⟨hr₁, hr, hlock, hr₀, hown⟩ := of_decide_eq_true hval
  have hholds : s.lockersMtx.Holds .shared (.worker 0) := hlock ▸ List.mem_singleton_self _
  exact ⟨s, hs, .heldOff hr₁ hr, .lockers hr hholds (.inl rfl), .mtx hr₀ hown,
    fun t => no_deadlock (Runs.Reach.init.of_exec hs) t⟩

end UnitThreads
end RocketmqProxy
