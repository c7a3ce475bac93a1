import RocketmqProxy.QueueTS.Linear

/-!
# Nobody is left asleep in `wait_and_pop`

`push` wakes one call, which may find that another has taken the value and sleep again.
While a call sleeps there are nevertheless as many calls on their way to a value as there
are values.
-/

namespace RocketmqProxy
namespace QueueTS

open Monitor

variable {T : Type}

/-- The call is about to take a value, or to wake one that will. -/
def servesAt : Pc (QueuePc T) (Ret T) → Bool
  | .running .notify | .running .waitTest | .running .waitSleep | .running .waitFront
  | .running (.waitPop _) | .woken _ => true
  | _ => false

def serves (call : Call (Op T) (QueuePc T) (Ret T)) : Bool := servesAt call.pc

/-- While a call sleeps there are as many calls that serve as there are values. -/
def Served (m : State (List T) (Op T) (QueuePc T) (Ret T)) : Prop :=
  (∃ call ∈ m.calls, call.Asleep) → m.data.length ≤ m.calls.countP serves

variable {m m' : State (List T) (Op T) (QueuePc T) (Ret T)} {c : Nat}
  {call : Call (Op T) (QueuePc T) (Ret T)}

/-- No statement leaves fewer calls that serve, unless it takes a value or wakes a call. -/
def Accounts (k : QueuePc T) (q : List T) : Act (List T) (QueuePc T) (Ret T) → Prop
  | .lock _ | .unlock _ | .ret _ => servesAt (.running k) = false
  | .run q' k' =>
    q'.length + (servesAt (.running k)).toNat ≤ q.length + (servesAt (.running k')).toNat
  | .wait _ => q = []
  | .notifyOne k' => servesAt (.running k) = true ∧ servesAt (.running k') = false
  | .notifyAll _ => False

theorem accounts {op : Op T} {k : QueuePc T} {q : List T} (hat : inside k = true → Holds op k q) :
    Accounts k q (code op k q) := by
  cases k with
  | lock | unlock | «return» => rfl
  | push value => simp [code, Accounts, servesAt]
  | notify => exact ⟨rfl, rfl⟩
  | tryTest | waitTest => cases q <;> simp [code, Accounts, servesAt]
  | tryFront | waitFront =>
    obtain ⟨-, hq⟩ := hat rfl
    cases q with
    | nil => exact absurd rfl hq
    | cons value rest => exact le_rfl
  | tryPop value | waitPop value =>
    obtain ⟨-, hq⟩ := hat rfl
    obtain ⟨rest, rfl⟩ := List.head?_eq_some_iff.mp hq
    simp [code, Accounts, servesAt]
  | waitSleep => exact (hat rfl).2
  | empty | size => exact le_rfl

/-- A call goes on, and the others stay where they are. -/
theorem Served.move (h : Served m) (hc : m.calls[c]? = some call)
    {pc : Pc (QueuePc T) (Ret T)} (hpc : ∀ k, pc ≠ .asleep k) {q : List T}
    {owner : Option Nat} {history : List (Linear.Item (Op T) (Ret T))}
    (hle : q.length + (serves call).toNat ≤ m.data.length + (servesAt pc).toNat) :
    Served { m.setPc c call pc with data := q, owner := owner, history := history } := by
  intro hs
  obtain ⟨call', hmem, hasleep⟩ := hs
  have hold := h ⟨call', asleep_setPc hpc hmem hasleep, hasleep⟩
  have hcount := Heap.countP_set hc { call with pc := pc } serves
  show q.length ≤ (m.calls.set c { call with pc := pc }).countP serves
  have hnew : serves { call with pc := pc } = servesAt pc := rfl
  rw [hnew] at hcount
  omega

theorem serves_wake {call' : Call (Op T) (QueuePc T) (Ret T)} (h : call'.Asleep) :
    serves call' = false ∧ serves call'.wake = true := by
  obtain ⟨k, hk⟩ := h
  rw [Call.wake, hk]
  exact ⟨by rw [serves, hk]; rfl, rfl⟩

/-- A call that sleeps wakes up. -/
theorem countP_wakeOne {target : Nat} {call' : Call (Op T) (QueuePc T) (Ret T)}
    (ht : m.calls[target]? = some call') (hs : call'.Asleep) :
    (m.wakeOne target).calls.countP serves = m.calls.countP serves + 1 := by
  have hcount := Heap.countP_set ht call'.wake serves
  rw [(serves_wake hs).1, (serves_wake hs).2] at hcount
  show (m.calls.modify target Call.wake).countP serves = _
  rw [Heap.modify_eq_set ht]
  simpa using hcount

/-- Calls sleep in the loop of `wait_and_pop` only. -/
def WaitsAt : Pc (QueuePc T) (Ret T) → Prop
  | .asleep k | .woken k => k = .waitTest
  | .running _ | .returned _ => True

theorem keeps_waitsAt : Keeps (program T) fun _ => WaitsAt where
  start _ := trivial
  next op k q _ := by
    cases k with
    | tryFront | waitFront => cases q <;> trivial
    | waitSleep => rfl
    | _ => trivial
  wake _ _ h := h
  relock _ _ _ := trivial

theorem Served.step {init : List T} (h : Served m) (hi : (outline T).Inv init m)
    (hw : ∀ call ∈ m.calls, WaitsAt call.pc) (hs : Step (program T) m m') : Served m' := by
  have hcode : ∀ {c : Nat} {call : Call (Op T) (QueuePc T) (Ret T)} {k : QueuePc T}
      {act : Act (List T) (QueuePc T) (Ret T)}, m.calls[c]? = some call →
      call.pc = .running k → (program T).code call.arg k m.data = act →
      serves call = servesAt (.running k) ∧ Accounts k m.data act := by
    intro c call k act hc hpc hk
    have hat := hi.points c call hc
    rw [hpc] at hat
    exact ⟨congrArg servesAt hpc, hk ▸ accounts hat⟩
  cases hs with
  | call arg =>
    rintro ⟨call, hmem, hasleep⟩
    have hold : call ∈ m.calls := by
      rcases List.mem_append.mp hmem with hmem | hmem
      · exact hmem
      · obtain ⟨k, hk⟩ := hasleep
        rw [List.mem_singleton.mp hmem] at hk
        cases hk
    refine (h ⟨call, hold, hasleep⟩).trans ?_
    rw [List.countP_append]
    exact Nat.le_add_right _ _
  | lock hc hpc hk | unlock hc hpc hk | ret hc hpc hk =>
    obtain ⟨hserves, hidle⟩ := hcode hc hpc hk
    refine h.move hc (fun _ => by simp) ?_
    rw [hserves, hidle]
    exact Nat.add_le_add_left (Nat.zero_le _) _
  | run hc hpc hk =>
    obtain ⟨hserves, hle⟩ := hcode hc hpc hk
    exact h.move hc (fun _ => by simp) (hserves ▸ hle)
  | wait hc hpc hk =>
    obtain ⟨-, hempty⟩ := hcode hc hpc hk
    intro _
    show m.data.length ≤ _
    rw [hempty]
    exact Nat.zero_le _
  | @notifyOne c target call k k' hc hpc hk ht =>
    obtain ⟨hserves, hwas, hnow⟩ := hcode hc hpc hk
    rintro ⟨call', hmem, hasleep⟩
    have hmem' := asleep_setPc (fun _ => by simp) (asleep_wakeOne hmem hasleep) hasleep
    have hold := h ⟨call', hmem', hasleep⟩
    rcases ht with ⟨sleeper, htarget, hs⟩ | hnone
    · -- the call that wakes up takes over from the one that has woken it
      have hne : c ≠ target := by
        rintro rfl
        obtain ⟨k, hk⟩ := hs
        rw [← Option.some.inj (hc.symm.trans htarget), hpc] at hk
        cases hk
      have hset : (m.setPc c call (.running k')).calls[target]? = some sleeper :=
        (List.getElem?_set_ne hne).trans htarget
      have hcount := Heap.countP_set hc { call with pc := .running k' } serves
      have hnow' : serves { call with pc := .running k' } = false := hnow
      rw [hserves, hwas, hnow'] at hcount
      rw [countP_wakeOne hset hs]
      exact hold.trans (Nat.le_of_eq hcount.symm)
    · exact absurd hasleep (hnone call' hmem')
  | notifyAll hc hpc hk => exact (hcode hc hpc hk).2.elim
  | @relock c call k hc hpc ho =>
    have hwaits := hw call (List.mem_of_getElem? hc)
    rw [hpc] at hwaits
    obtain rfl : k = .waitTest := hwaits
    have hserves : serves call = true := congrArg servesAt hpc
    refine h.move hc (fun _ => by simp) ?_
    rw [hserves]
    exact le_rfl
  | @spurious c call hc hasleep =>
    intro _
    have hold := h ⟨call, List.mem_of_getElem? hc, hasleep⟩
    rw [countP_wakeOne hc hasleep]
    exact hold.trans (Nat.le_succ _)

theorem served {q : List T} (h : Reachable (program T) q m) : Served m := by
  refine h.invariant ?_ fun _ _ _ hr hi _ hs =>
    hi.step ((outline T).inv hr) (keeps_waitsAt.forall_calls hr) (step_cases hs)
  rintro ⟨call, hmem, -⟩
  exact absurd hmem List.not_mem_nil

/-- However the calls interleave: while a call of `wait_and_pop` sleeps, each value in the
queue has a call that is awake in `wait_and_pop`, or that has put a value there and is about
to wake a call. -/
theorem waiters_served {q : List T} (h : Reachable (program T) q m)
    (hs : ∃ call ∈ m.calls, call.Asleep) : m.data.length ≤ m.calls.countP serves :=
  served h hs

/-- A call sleeps, and another has just put a value into the queue. -/
theorem waiters_served_push :
    ∃ m : State (List Nat) (Op Nat) (QueuePc Nat) (Ret Nat), Reachable (program Nat) [] m ∧
      (∃ call ∈ m.calls, call.Asleep) ∧ m.data = [7] ∧ m.data.length ≤ m.calls.countP serves := by
  have hrun : Runs.exec (State.step (program Nat)) (.init [])
      [.call .waitAndPop, .turn 0 0, .turn 0 0, .turn 0 0, .call (.push 7), .turn 1 0,
        .turn 1 0] = some _ := rfl
  have hreach := Runs.Reach.of_exec .init hrun
  have hs : ∃ call ∈ [(⟨.waitAndPop, .asleep .waitTest⟩ : Call (Op Nat) (QueuePc Nat) (Ret Nat)),
      ⟨.push 7, .running .notify⟩], call.Asleep := ⟨_, List.mem_cons_self, _, rfl⟩
  exact ⟨_, hreach, hs, rfl, waiters_served hreach hs⟩

end QueueTS
end RocketmqProxy
