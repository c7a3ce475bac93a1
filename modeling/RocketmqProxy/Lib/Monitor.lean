import RocketmqProxy.Lib.Heap
import RocketmqProxy.Lib.Linear
import RocketmqProxy.Lib.Mutexes
import RocketmqProxy.Lib.Runs

/-!
# Monitors

A monitor is an object whose operations lock one mutex and may wait on one condition
variable.  Any number of calls run side by side, one statement at a time.  A proof outline
says of each point of the operations what holds there of the guarded data and whether the
call has taken effect; it looks at one call alone.
-/

namespace Monitor

open Linear

variable {σ α κ ρ : Type*}

/-- What a statement does, and where the operation goes on. -/
inductive Act (σ κ ρ : Type*)
  | lock (k : κ)
  | unlock (k : κ)
  /-- Any statement on the guarded data, and on locals. -/
  | run (s : σ) (k : κ)
  /-- Unlock the mutex and sleep; lock it again after the sleep. -/
  | wait (k : κ)
  | notifyOne (k : κ)
  | notifyAll (k : κ)
  | ret (r : ρ)

/-- The operations of a class: where each starts, and the statement at each point. -/
structure Program (σ α κ ρ : Type*) where
  start : α → κ
  code : α → κ → σ → Act σ κ ρ

inductive Pc (κ ρ : Type*)
  | running (k : κ)
  | asleep (k : κ)
  /-- Awake, and about to lock the mutex again. -/
  | woken (k : κ)
  | returned (r : ρ)
deriving DecidableEq, Repr

structure Call (α κ ρ : Type*) where
  arg : α
  pc : Pc κ ρ
deriving DecidableEq, Repr

def Call.wake (call : Call α κ ρ) : Call α κ ρ :=
  match call.pc with
  | .asleep k => { call with pc := .woken k }
  | _ => call

def Call.Asleep (call : Call α κ ρ) : Prop := ∃ k, call.pc = .asleep k

instance (call : Call α κ ρ) : Decidable call.Asleep :=
  match h : call.pc with
  | .asleep k => .isTrue ⟨k, h⟩
  | .running _ | .woken _ | .returned _ => .isFalse fun ⟨_, he⟩ => by rw [h] at he; cases he

structure State (σ α κ ρ : Type*) where
  data : σ
  owner : Option Nat
  calls : List (Call α κ ρ)
  /-- What has happened so far.  No operation reads it. -/
  history : List (Item α ρ)

inductive Event (α : Type*)
  | call (arg : α)
  /-- The call takes its next step.  If that wakes one call it is the one at `target`. -/
  | turn (c target : Nat)
  /-- A call wakes up without having been notified. -/
  | wake (c : Nat)
deriving DecidableEq, Repr

namespace State

def init (s : σ) : State σ α κ ρ := { data := s, owner := none, calls := [], history := [] }

def setPc (m : State σ α κ ρ) (c : Nat) (call : Call α κ ρ) (pc : Pc κ ρ) : State σ α κ ρ :=
  { m with calls := m.calls.set c { call with pc := pc } }

def wakeAll (m : State σ α κ ρ) : State σ α κ ρ := { m with calls := m.calls.map Call.wake }

def wakeOne (m : State σ α κ ρ) (target : Nat) : State σ α κ ρ :=
  { m with calls := m.calls.modify target Call.wake }

/-- The step of the call `c`, at the statement `act`. -/
def act (m : State σ α κ ρ) (c : Nat) (call : Call α κ ρ) (target : Nat) :
    Act σ κ ρ → Option (State σ α κ ρ)
  | .lock k =>
    if m.owner = none then some { m.setPc c call (.running k) with owner := some c } else none
  | .unlock k => some { m.setPc c call (.running k) with owner := none }
  | .run s k => some { m.setPc c call (.running k) with data := s }
  | .wait k => some { m.setPc c call (.asleep k) with owner := none }
  | .notifyOne k =>
    if (∃ call' ∈ m.calls[target]?, call'.Asleep) ∨ ∀ call' ∈ m.calls, ¬ call'.Asleep then
      some ((m.setPc c call (.running k)).wakeOne target)
    else none
  | .notifyAll k => some (m.setPc c call (.running k)).wakeAll
  | .ret r => some { m.setPc c call (.returned r) with history := m.history ++ [.respond c r] }

def turn (P : Program σ α κ ρ) (m : State σ α κ ρ) (c : Nat) (call : Call α κ ρ)
    (target : Nat) : Option (State σ α κ ρ) :=
  match call.pc with
  | .running k => m.act c call target (P.code call.arg k m.data)
  | .woken k =>
    if m.owner = none then some { m.setPc c call (.running k) with owner := some c } else none
  | .asleep _ | .returned _ => none

def step (P : Program σ α κ ρ) (m : State σ α κ ρ) : Event α → Option (State σ α κ ρ)
  | .call arg => some { m with
      calls := m.calls ++ [{ arg := arg, pc := .running (P.start arg) }]
      history := m.history ++ [.invoke m.calls.length arg] }
  | .turn c target => m.calls[c]?.bind fun call => m.turn P c call target
  | .wake c => m.calls[c]?.bind fun call => if call.Asleep then some (m.wakeOne c) else none

end State

/-- States that any number of calls reach from the object `s`. -/
abbrev Reachable (P : Program σ α κ ρ) (s : σ) : State σ α κ ρ → Prop :=
  Runs.Reach (State.step P) (.init s) Runs.always

/-! ## Steps -/

inductive Step (P : Program σ α κ ρ) (m : State σ α κ ρ) : State σ α κ ρ → Prop
  | call (arg : α) : Step P m { m with
      calls := m.calls ++ [{ arg := arg, pc := .running (P.start arg) }]
      history := m.history ++ [.invoke m.calls.length arg] }
  | lock {c : Nat} {call : Call α κ ρ} {k k' : κ} (hc : m.calls[c]? = some call)
      (hpc : call.pc = .running k) (hk : P.code call.arg k m.data = .lock k')
      (ho : m.owner = none) :
      Step P m { m.setPc c call (.running k') with owner := some c }
  | unlock {c : Nat} {call : Call α κ ρ} {k k' : κ} (hc : m.calls[c]? = some call)
      (hpc : call.pc = .running k) (hk : P.code call.arg k m.data = .unlock k') :
      Step P m { m.setPc c call (.running k') with owner := none }
  | run {c : Nat} {call : Call α κ ρ} {k k' : κ} {s : σ} (hc : m.calls[c]? = some call)
      (hpc : call.pc = .running k) (hk : P.code call.arg k m.data = .run s k') :
      Step P m { m.setPc c call (.running k') with data := s }
  | wait {c : Nat} {call : Call α κ ρ} {k k' : κ} (hc : m.calls[c]? = some call)
      (hpc : call.pc = .running k) (hk : P.code call.arg k m.data = .wait k') :
      Step P m { m.setPc c call (.asleep k') with owner := none }
  | notifyOne {c target : Nat} {call : Call α κ ρ} {k k' : κ} (hc : m.calls[c]? = some call)
      (hpc : call.pc = .running k) (hk : P.code call.arg k m.data = .notifyOne k')
      (ht : (∃ call' ∈ m.calls[target]?, call'.Asleep) ∨ ∀ call' ∈ m.calls, ¬ call'.Asleep) :
      Step P m ((m.setPc c call (.running k')).wakeOne target)
  | notifyAll {c : Nat} {call : Call α κ ρ} {k k' : κ} (hc : m.calls[c]? = some call)
      (hpc : call.pc = .running k) (hk : P.code call.arg k m.data = .notifyAll k') :
      Step P m (m.setPc c call (.running k')).wakeAll
  | ret {c : Nat} {call : Call α κ ρ} {k : κ} {r : ρ} (hc : m.calls[c]? = some call)
      (hpc : call.pc = .running k) (hk : P.code call.arg k m.data = .ret r) :
      Step P m { m.setPc c call (.returned r) with history := m.history ++ [.respond c r] }
  | relock {c : Nat} {call : Call α κ ρ} {k : κ} (hc : m.calls[c]? = some call)
      (hpc : call.pc = .woken k) (ho : m.owner = none) :
      Step P m { m.setPc c call (.running k) with owner := some c }
  | spurious {c : Nat} {call : Call α κ ρ} (hc : m.calls[c]? = some call)
      (hs : call.Asleep) : Step P m (m.wakeOne c)

variable {P : Program σ α κ ρ} {m m' : State σ α κ ρ}

theorem act_cases {c target : Nat} {call : Call α κ ρ} {k : κ} (hc : m.calls[c]? = some call)
    (hpc : call.pc = .running k)
    (h : m.act c call target (P.code call.arg k m.data) = some m') : Step P m m' := by
  cases hk : P.code call.arg k m.data with
  | lock k' =>
    rw [hk, State.act] at h
    obtain ⟨ho, h⟩ := Option.ite_none_right_eq_some.mp h
    obtain rfl := Option.some.inj h
    exact .lock hc hpc hk ho
  | unlock k' =>
    rw [hk] at h
    obtain rfl := Option.some.inj h
    exact .unlock hc hpc hk
  | run s k' =>
    rw [hk] at h
    obtain rfl := Option.some.inj h
    exact .run hc hpc hk
  | wait k' =>
    rw [hk] at h
    obtain rfl := Option.some.inj h
    exact .wait hc hpc hk
  | notifyOne k' =>
    rw [hk, State.act] at h
    obtain ⟨ht, h⟩ := Option.ite_none_right_eq_some.mp h
    obtain rfl := Option.some.inj h
    exact .notifyOne hc hpc hk ht
  | notifyAll k' =>
    rw [hk] at h
    obtain rfl := Option.some.inj h
    exact .notifyAll hc hpc hk
  | ret r =>
    rw [hk] at h
    obtain rfl := Option.some.inj h
    exact .ret hc hpc hk

theorem step_cases {e : Event α} (h : m.step P e = some m') : Step P m m' := by
  cases e with
  | call arg =>
    obtain rfl := Option.some.inj h
    exact .call arg
  | turn c target =>
    obtain ⟨call, hc, h⟩ := Option.bind_eq_some_iff.mp h
    rw [State.turn] at h
    split at h
    · next k hpc => exact act_cases hc hpc h
    · next k hpc =>
      obtain ⟨ho, h⟩ := Option.ite_none_right_eq_some.mp h
      obtain rfl := Option.some.inj h
      exact .relock hc hpc ho
    · cases h
    · cases h
  | wake c =>
    obtain ⟨call, hc, h⟩ := Option.bind_eq_some_iff.mp h
    obtain ⟨hs, h⟩ := Option.ite_none_right_eq_some.mp h
    obtain rfl := Option.some.inj h
    exact .spurious hc hs

/-! ## Invariants of single calls -/

/-- Where a call goes on after a statement. -/
def Act.next : Act σ κ ρ → Pc κ ρ
  | .lock k | .unlock k | .run _ k | .notifyOne k | .notifyAll k => .running k
  | .wait k => .asleep k
  | .ret r => .returned r

/-- What a call keeps by its own steps. -/
structure Keeps (P : Program σ α κ ρ) (Q : α → Pc κ ρ → Prop) : Prop where
  start : ∀ a, Q a (.running (P.start a))
  next : ∀ a k s, Q a (.running k) → Q a (P.code a k s).next
  wake : ∀ a k, Q a (.asleep k) → Q a (.woken k)
  relock : ∀ a k, Q a (.woken k) → Q a (.running k)

variable {Q : α → Pc κ ρ → Prop}

theorem Keeps.of_wake (hQ : Keeps P Q) {call : Call α κ ρ} (h : Q call.arg call.pc) :
    Q call.wake.arg call.wake.pc := by
  rw [Call.wake]
  split
  · next k hk => exact hQ.wake _ k (hk ▸ h)
  · exact h

theorem Keeps.step (hQ : Keeps P Q) (h : Step P m m')
    (hi : ∀ call ∈ m.calls, Q call.arg call.pc) : ∀ call ∈ m'.calls, Q call.arg call.pc := by
  have hset : ∀ {c : Nat} {call : Call α κ ρ} {pc : Pc κ ρ}, Q call.arg pc →
      ∀ call' ∈ (m.setPc c call pc).calls, Q call'.arg call'.pc := by
    intro c call pc hpc call' hmem
    obtain ⟨d, hd⟩ := List.getElem?_of_mem hmem
    rcases Heap.of_set hd with ⟨-, rfl⟩ | hd
    · exact hpc
    · exact hi call' (List.mem_of_getElem? hd)
  have hcode : ∀ {c : Nat} {call : Call α κ ρ} {k : κ} {act : Act σ κ ρ},
      m.calls[c]? = some call → call.pc = .running k → P.code call.arg k m.data = act →
      Q call.arg act.next := by
    intro c call k act hc hpc hk
    have hcall := hi call (List.mem_of_getElem? hc)
    rw [hpc] at hcall
    exact hk ▸ hQ.next call.arg k m.data hcall
  have hmodify : ∀ {calls : List (Call α κ ρ)} (target : Nat),
      (∀ call ∈ calls, Q call.arg call.pc) →
      ∀ call ∈ calls.modify target Call.wake, Q call.arg call.pc := by
    intro calls target hcalls call hmem
    obtain ⟨d, hd⟩ := List.getElem?_of_mem hmem
    rw [List.getElem?_modify] at hd
    obtain ⟨call₀, hd₀, rfl⟩ := Option.map_eq_some_iff.mp hd
    have hold := hcalls call₀ (List.mem_of_getElem? hd₀)
    split
    · exact hQ.of_wake hold
    · exact hold
  cases h with
  | call arg =>
    intro call hmem
    rcases List.mem_append.mp hmem with hmem | hmem
    · exact hi call hmem
    · rw [List.mem_singleton.mp hmem]
      exact hQ.start arg
  | lock hc hpc hk => exact hset (hcode hc hpc hk)
  | unlock hc hpc hk => exact hset (hcode hc hpc hk)
  | run hc hpc hk => exact hset (hcode hc hpc hk)
  | wait hc hpc hk => exact hset (hcode hc hpc hk)
  | @notifyOne c target call k k' hc hpc hk ht =>
    exact hmodify target (hset (hcode hc hpc hk))
  | notifyAll hc hpc hk =>
    intro call hmem
    obtain ⟨call₀, hmem₀, rfl⟩ := List.mem_map.mp hmem
    exact hQ.of_wake (hset (hcode hc hpc hk) call₀ hmem₀)
  | ret hc hpc hk => exact hset (hcode hc hpc hk)
  | @relock c call k hc hpc =>
    have hcall := hi call (List.mem_of_getElem? hc)
    rw [hpc] at hcall
    exact hset (hQ.relock call.arg k hcall)
  | @spurious c call hc hs => exact hmodify c hi

/-- What each call keeps by its own steps holds of all calls. -/
theorem Keeps.forall_calls (hQ : Keeps P Q) {s : σ} (h : Reachable P s m) :
    ∀ call ∈ m.calls, Q call.arg call.pc :=
  h.invariant (fun _ hmem => absurd hmem List.not_mem_nil)
    fun _ _ _ _ hi _ hs => hQ.step (step_cases hs) hi

/-! ## Sleepers -/

theorem wake_of_not_asleep {call : Call α κ ρ} (h : ¬ call.Asleep) : call.wake = call := by
  rw [Call.wake]
  split
  · next k hk => exact absurd ⟨k, hk⟩ h
  · rfl

theorem asleep_of_wake {call : Call α κ ρ} (h : call.wake.Asleep) : call.Asleep := by
  by_contra hs
  rw [wake_of_not_asleep hs] at h
  exact hs h

theorem wake_not_asleep {call : Call α κ ρ} : ¬ call.wake.Asleep := by
  intro h
  obtain ⟨k, hk⟩ := asleep_of_wake h
  obtain ⟨k', hk'⟩ := h
  rw [Call.wake, hk] at hk'
  cases hk'

theorem asleep_setPc {c : Nat} {call : Call α κ ρ} {pc : Pc κ ρ} (hpc : ∀ k, pc ≠ .asleep k)
    {call' : Call α κ ρ} (hmem : call' ∈ (m.setPc c call pc).calls) (hs : call'.Asleep) :
    call' ∈ m.calls := by
  obtain ⟨d, hd⟩ := List.getElem?_of_mem hmem
  rcases Heap.of_set hd with ⟨-, rfl⟩ | hd
  · obtain ⟨k, hk⟩ := hs
    exact absurd hk (hpc k)
  · exact List.mem_of_getElem? hd

theorem asleep_wakeOne {target : Nat} {call : Call α κ ρ}
    (hmem : call ∈ (m.wakeOne target).calls) (hs : call.Asleep) : call ∈ m.calls := by
  obtain ⟨d, hd⟩ := List.getElem?_of_mem hmem
  have hd : (m.calls.modify target Call.wake)[d]? = some call := hd
  rw [List.getElem?_modify] at hd
  obtain ⟨call₀, hd₀, rfl⟩ := Option.map_eq_some_iff.mp hd
  by_cases htd : target = d
  · rw [if_pos htd] at hs
    exact absurd hs wake_not_asleep
  · rw [if_neg htd]
    exact List.mem_of_getElem? hd₀

/-! ## Proof outlines -/

/-- What an outline has to say of the statement `act` of an operation with argument `a`, at
the point `k`. -/
def Sound (f : σ → α → Option (ρ × σ)) (inside : κ → Bool) (result : κ → Option ρ)
    (holds : α → κ → σ → Prop) (a : α) (k : κ) (s : σ) : Act σ κ ρ → Prop
  | .lock k' =>
    inside k = false ∧ inside k' = true ∧ result k' = result k ∧ ∀ s', holds a k' s'
  | .unlock k' => inside k = true ∧ inside k' = false ∧ result k' = result k
  | .run s' k' => inside k' = inside k ∧ (inside k = true → holds a k' s') ∧
      (s' = s ∧ result k' = result k ∨
        inside k = true ∧ result k = none ∧ ∃ r, result k' = some r ∧ f s a = some (r, s'))
  | .wait k' => inside k = true ∧ inside k' = true ∧ result k = none ∧ result k' = none ∧
      ∀ s', holds a k' s'
  | .notifyOne k' | .notifyAll k' =>
    inside k' = inside k ∧ result k' = result k ∧ (inside k = true → holds a k' s)
  | .ret r => inside k = false ∧ result k = some r

/-- The operations of `P`, with the points at which the mutex is held, what a call that has
taken effect will return, and what holds of the guarded data while the call holds the
mutex.  `f` is the sequential object. -/
structure Outline (P : Program σ α κ ρ) (f : σ → α → Option (ρ × σ)) where
  inside : κ → Bool
  result : κ → Option ρ
  holds : α → κ → σ → Prop
  start_inside : ∀ a, inside (P.start a) = false
  start_result : ∀ a, result (P.start a) = none
  sound : ∀ a k s, (inside k = true → holds a k s) →
    Sound f inside result holds a k s (P.code a k s)

namespace Outline

variable {f : σ → α → Option (ρ × σ)} (o : Outline P f)

def heldAt : Pc κ ρ → Option Unit
  | .running k => if o.inside k then some () else none
  | .asleep _ | .woken _ | .returned _ => none

def resultAt : Pc κ ρ → Option ρ
  | .running k => o.result k
  | .asleep _ | .woken _ => none
  | .returned r => some r

def held (m : State σ α κ ρ) (c : Nat) : Option Unit :=
  m.calls[c]?.bind fun call => o.heldAt call.pc

def status (m : State σ α κ ρ) (c : Nat) : Status α ρ :=
  m.calls[c]?.map fun call => (call.arg, o.resultAt call.pc)

/-- What holds of a call at `pc`, when the guarded data is `s`. -/
def At (a : α) (s : σ) : Pc κ ρ → Prop
  | .running k => o.inside k = true → o.holds a k s
  | .asleep k | .woken k => o.inside k = true ∧ o.result k = none ∧ ∀ s', o.holds a k s'
  | .returned _ => True

structure Inv (init : σ) (m : State σ α κ ρ) : Prop where
  owned : Mutexes.Owned (fun _ => m.owner) (o.held m)
  points : ∀ (c : Nat) (call : Call α κ ρ), m.calls[c]? = some call → o.At call.arg m.data call.pc
  tracks : ∃ t, t.filterMap Mark.visible = m.history ∧ Tracks f init t m.data (o.status m)

variable {o} {init : σ} {c : Nat} {call : Call α κ ρ}

theorem inside_iff {k : κ} : o.heldAt (.running k : Pc κ ρ) = some () ↔ o.inside k = true := by
  rw [heldAt]
  split <;> simp_all

theorem heldAt_inside {k : κ} (h : o.inside k = true) :
    o.heldAt (.running k : Pc κ ρ) = some () := inside_iff.mpr h

theorem heldAt_outside {k : κ} (h : o.inside k = false) :
    o.heldAt (.running k : Pc κ ρ) = none := by
  rw [heldAt, h]
  rfl

theorem held_eq (hc : m.calls[c]? = some call) : o.held m c = o.heldAt call.pc := by
  rw [held, hc, Option.bind_some]

theorem held_setPc (hc : m.calls[c]? = some call) (pc : Pc κ ρ) :
    o.held (m.setPc c call pc) = Function.update (o.held m) c (o.heldAt pc) := by
  funext d
  by_cases hd : d = c
  · subst hd
    rw [Function.update_self, held, State.setPc, Heap.set_self hc, Option.bind_some]
  · rw [Function.update_of_ne hd, held, State.setPc, List.getElem?_set_ne (Ne.symm hd), held]

theorem status_setPc (hc : m.calls[c]? = some call) (pc : Pc κ ρ) :
    o.status (m.setPc c call pc) =
      Function.update (o.status m) c (some (call.arg, o.resultAt pc)) := by
  funext d
  by_cases hd : d = c
  · subst hd
    rw [Function.update_self, status, State.setPc, Heap.set_self hc, Option.map_some]
  · rw [Function.update_of_ne hd, status, State.setPc, List.getElem?_set_ne (Ne.symm hd), status]

/-- Only one call is inside. -/
theorem Inv.eq_of_held (hi : o.Inv init m) {d : Nat} (hc : o.held m c = some ())
    (hd : o.held m d = some ()) : d = c :=
  Option.some.inj (((hi.owned () d).mpr hd).symm.trans ((hi.owned () c).mpr hc))

/-- A call moves on to `pc`, which takes the guarded data to `s`. -/
theorem Inv.move (hi : o.Inv init m) (hc : m.calls[c]? = some call) {pc : Pc κ ρ} {s : σ}
    {owner : Option Nat} {history : List (Item α ρ)}
    (hturn : Mutexes.Turn () c m.owner (o.heldAt call.pc) owner (o.heldAt pc))
    (hdata : s = m.data ∨ o.heldAt call.pc = some ()) (hat : o.At call.arg s pc)
    (htracks : ∃ t, t.filterMap Mark.visible = history ∧
      Tracks f init t s (Function.update (o.status m) c (some (call.arg, o.resultAt pc)))) :
    o.Inv init { m.setPc c call pc with data := s, owner := owner, history := history } where
  owned := by
    have howned := hi.owned.turn (held_eq hc ▸ hturn)
    rw [← held_setPc hc] at howned
    intro i d
    have hd := howned i d
    rwa [Function.update_self] at hd
  points := by
    intro d call' hd
    rcases Heap.of_set hd with ⟨-, rfl⟩ | hd'
    · exact hat
    · by_cases hdc : c = d
      · subst hdc
        obtain rfl := Option.some.inj ((Heap.set_self hc _).symm.trans hd)
        exact hat
      · have hold := hi.points d call' hd'
        rcases hdata with rfl | hheld
        · exact hold
        · -- the other calls are outside, where nothing is said of the guarded data
          cases hpc : call'.pc with
          | running k =>
            intro hk
            have hin : o.held m d = some () := by rw [held_eq hd', hpc, heldAt_inside hk]
            exact absurd (hi.eq_of_held ((held_eq hc).trans hheld) hin).symm hdc
          | asleep k | woken k | returned r =>
            rw [hpc] at hold
            exact hold
  tracks := by
    obtain ⟨t, ht, htr⟩ := htracks
    rw [← status_setPc hc] at htr
    exact ⟨t, ht, htr⟩

theorem update_status (hc : m.calls[c]? = some call) {res : Option ρ}
    (hres : res = o.resultAt call.pc) :
    Function.update (o.status m) c (some (call.arg, res)) = o.status m := by
  rw [hres]
  refine Function.update_eq_self_iff.mpr ?_
  rw [status, hc, Option.map_some]

/-- The same, of a call that has taken effect before or does not do so yet. -/
theorem Inv.goOn (hi : o.Inv init m) (hc : m.calls[c]? = some call) {pc : Pc κ ρ}
    {owner : Option Nat}
    (hturn : Mutexes.Turn () c m.owner (o.heldAt call.pc) owner (o.heldAt pc))
    (hat : o.At call.arg m.data pc) (hres : o.resultAt pc = o.resultAt call.pc) :
    o.Inv init { m.setPc c call pc with owner := owner } := by
  refine hi.move hc hturn (.inl rfl) hat ?_
  rw [update_status hc hres]
  exact hi.tracks

theorem heldAt_wake (call : Call α κ ρ) : o.heldAt call.wake.pc = o.heldAt call.pc := by
  rw [Call.wake]
  cases hpc : call.pc <;> simp [hpc, heldAt]

theorem resultAt_wake (call : Call α κ ρ) : o.resultAt call.wake.pc = o.resultAt call.pc := by
  rw [Call.wake]
  cases hpc : call.pc <;> simp [hpc, resultAt]

theorem arg_wake (call : Call α κ ρ) : call.wake.arg = call.arg := by
  rw [Call.wake]
  split <;> rfl

theorem At.wake {s : σ} (h : o.At call.arg s call.pc) : o.At call.wake.arg s call.wake.pc := by
  rw [arg_wake, Call.wake]
  cases hpc : call.pc with
  | asleep k =>
    rw [hpc] at h
    exact h
  | running k | woken k | returned r =>
    rw [hpc] at h
    rw [hpc]
    exact h

/-- Some calls wake up. -/
theorem Inv.wake (hi : o.Inv init m) {calls : List (Call α κ ρ)}
    (hcalls : ∀ c : Nat, calls[c]? = m.calls[c]? ∨ calls[c]? = m.calls[c]?.map Call.wake) :
    o.Inv init { m with calls := calls } := by
  have hheld : o.held { m with calls := calls } = o.held m := by
    funext c
    rw [held, held]
    rcases hcalls c with h | h
    · rw [h]
    · rw [h, Option.bind_map]
      exact congrArg (Option.bind m.calls[c]?) (funext heldAt_wake)
  have hstatus : o.status { m with calls := calls } = o.status m := by
    funext c
    rw [status, status]
    rcases hcalls c with h | h
    · rw [h]
    · rw [h, Option.map_map]
      refine congrArg (Option.map · m.calls[c]?) (funext fun call => ?_)
      rw [Function.comp_apply, resultAt_wake, arg_wake]
  refine ⟨?_, fun c call hc => ?_, ?_⟩
  · rw [hheld]
    exact hi.owned
  · rcases hcalls c with h | h
    · exact hi.points c call (h.symm.trans hc)
    · obtain ⟨call₀, hc₀, rfl⟩ := Option.map_eq_some_iff.mp (h.symm.trans hc)
      exact (hi.points c call₀ hc₀).wake
  · rw [hstatus]
    exact hi.tracks

theorem Inv.wakeAll (hi : o.Inv init m) : o.Inv init m.wakeAll :=
  hi.wake fun _ => .inr List.getElem?_map

theorem Inv.wakeOne (hi : o.Inv init m) (target : Nat) : o.Inv init (m.wakeOne target) := by
  refine hi.wake fun c => ?_
  by_cases hc : target = c
  · subst hc
    exact .inr (List.getElem?_modify_eq _ _ _)
  · exact .inl (List.getElem?_modify_ne _ _ hc)

theorem inv_init (o : Outline P f) (s : σ) : o.Inv s (.init s) where
  owned := fun _ _ => by simp [State.init, held]
  points := fun _ _ h => absurd h (by simp [State.init])
  tracks := by
    refine ⟨[], rfl, ?_⟩
    have hstatus : o.status (.init s) = fun _ => none := by
      funext c
      simp [status, State.init]
    rw [hstatus]
    exact .nil f s

theorem Inv.invoke (hi : o.Inv init m) (arg : α) : o.Inv init { m with
    calls := m.calls ++ [{ arg := arg, pc := .running (P.start arg) }]
    history := m.history ++ [.invoke m.calls.length arg] } := by
  have hnone : m.calls[m.calls.length]? = none := List.getElem?_eq_none le_rfl
  refine ⟨?_, fun c call hc => ?_, ?_⟩
  · intro i d
    have hout : o.heldAt (.running (P.start arg)) = none := heldAt_outside (o.start_inside arg)
    have hsame := Heap.bind_append (f := fun call : Call α κ ρ => o.heldAt call.pc)
      (a := { arg := arg, pc := .running (P.start arg) }) hout m.calls d
    exact (hi.owned i d).trans (Eq.congr_left hsame).symm
  · rcases Heap.of_append hc with ⟨-, rfl⟩ | hc
    · intro hk
      rw [o.start_inside arg] at hk
      cases hk
    · exact hi.points c call hc
  · obtain ⟨t, ht, htr⟩ := hi.tracks
    refine ⟨t ++ [.item (.invoke m.calls.length arg)], ?_, ?_⟩
    · rw [History.filterMap_concat, ht]
      rfl
    · have hfresh : o.status m m.calls.length = none := by rw [status, hnone, Option.map_none]
      have hnew := htr.invoke hfresh arg
      refine (congrArg (Tracks f init _ m.data) (funext fun c => ?_)).mp hnew
      by_cases hc : c = m.calls.length
      · subst hc
        rw [Function.update_self, status, List.getElem?_concat_length, Option.map_some, resultAt,
          o.start_result]
      · rw [Function.update_of_ne hc, status, status]
        rcases Nat.lt_or_ge c m.calls.length with hlt | hge
        · rw [List.getElem?_append_left hlt]
        · rw [List.getElem?_eq_none hge,
            List.getElem?_eq_none (by rw [List.length_append, List.length_singleton]; omega)]

variable {k k' : κ}

/-- What the outline says of the statement that a running call is at. -/
theorem Inv.sound (hi : o.Inv init m) (hc : m.calls[c]? = some call)
    (hpc : call.pc = .running k) : Sound f o.inside o.result o.holds call.arg k m.data
      (P.code call.arg k m.data) := by
  have hat := hi.points c call hc
  rw [hpc] at hat
  exact o.sound _ _ _ hat

theorem keepTurn (hk : o.inside k' = o.inside k) (owner : Option Nat) :
    Mutexes.Turn () c owner (o.heldAt (.running k : Pc κ ρ)) owner (o.heldAt (.running k')) := by
  rw [heldAt, heldAt, hk]
  exact .keep _ _

theorem Step.inv (hi : o.Inv init m) (h : Step P m m') : o.Inv init m' := by
  cases h with
  | call arg => exact hi.invoke arg
  | @lock c call k k' hc hpc hk ho =>
    have hs := hi.sound hc hpc
    rw [hk] at hs
    obtain ⟨hout, hin, hres, hat⟩ := hs
    refine hi.goOn hc ?_ (fun _ => hat m.data) ?_
    · rw [hpc, heldAt_outside hout, heldAt_inside hin, ho]
      exact .lock
    · rw [hpc]
      exact hres
  | @unlock c call k k' hc hpc hk =>
    have hs := hi.sound hc hpc
    rw [hk] at hs
    obtain ⟨hin, hout, hres⟩ := hs
    refine hi.goOn hc ?_ (fun h => absurd (h.symm.trans hout) (by simp)) ?_
    · rw [hpc, heldAt_outside hout, heldAt_inside hin]
      exact .unlock _
    · rw [hpc]
      exact hres
  | @run c call k k' s hc hpc hk =>
    have hs := hi.sound hc hpc
    rw [hk] at hs
    obtain ⟨hins, hat, heff⟩ := hs
    have hat' : o.At call.arg s (.running k') := fun h => hat (hins.symm.trans h)
    have hturn : Mutexes.Turn () c m.owner (o.heldAt call.pc) m.owner
        (o.heldAt (.running k')) := by
      rw [hpc]
      exact keepTurn hins _
    rcases heff with ⟨rfl, hres⟩ | ⟨hin, hnone, r, hr, hf⟩
    · refine hi.goOn hc hturn hat' ?_
      rw [hpc]
      exact hres
    · refine hi.move hc hturn (.inr (by rw [hpc]; exact heldAt_inside hin)) hat' ?_
      obtain ⟨t, ht, htr⟩ := hi.tracks
      have hpend : o.status m c = some (call.arg, none) := by
        rw [status, hc, Option.map_some, hpc, resultAt, hnone]
      have heffect := htr.effect hpend hf
      refine ⟨t ++ [.effect ⟨c, call.arg, r⟩], ?_, ?_⟩
      · rw [History.filterMap_concat_none rfl, ht]
        rfl
      · rw [resultAt, hr]
        exact heffect
  | @wait c call k k' hc hpc hk =>
    have hs := hi.sound hc hpc
    rw [hk] at hs
    obtain ⟨hin, hin', hnone, hnone', hat⟩ := hs
    refine hi.goOn hc ?_ ⟨hin', hnone', hat⟩ ?_
    · rw [hpc, heldAt_inside hin]
      exact .unlock _
    · rw [hpc]
      exact hnone.symm
  | @notifyOne c target call k k' hc hpc hk =>
    have hs := hi.sound hc hpc
    rw [hk] at hs
    obtain ⟨hins, hres, hat⟩ := hs
    refine Inv.wakeOne (m := m.setPc c call (.running k')) ?_ target
    refine hi.goOn hc ?_ (fun h => hat (hins.symm.trans h)) ?_
    · rw [hpc]
      exact keepTurn hins _
    · rw [hpc]
      exact hres
  | @notifyAll c call k k' hc hpc hk =>
    have hs := hi.sound hc hpc
    rw [hk] at hs
    obtain ⟨hins, hres, hat⟩ := hs
    refine Inv.wakeAll (m := m.setPc c call (.running k')) ?_
    refine hi.goOn hc ?_ (fun h => hat (hins.symm.trans h)) ?_
    · rw [hpc]
      exact keepTurn hins _
    · rw [hpc]
      exact hres
  | @ret c call k r hc hpc hk =>
    have hs := hi.sound hc hpc
    rw [hk] at hs
    obtain ⟨hout, hr⟩ := hs
    refine hi.move hc ?_ (.inl rfl) trivial ?_
    · rw [hpc, heldAt_outside hout]
      exact .keep _ _
    · obtain ⟨t, ht, htr⟩ := hi.tracks
      have hdone : o.status m c = some (call.arg, some r) := by
        rw [status, hc, Option.map_some, hpc, resultAt, hr]
      refine ⟨t ++ [.item (.respond c r)], ?_, ?_⟩
      · rw [History.filterMap_concat, ht]
        rfl
      · have hsame : Function.update (o.status m) c (some (call.arg, some r)) = o.status m :=
          Function.update_eq_self_iff.mpr hdone.symm
        rw [resultAt, hsame]
        exact htr.respond hdone
  | @relock c call k hc hpc ho =>
    have hat := hi.points c call hc
    rw [hpc] at hat
    obtain ⟨hin, hnone, hholds⟩ := hat
    refine hi.goOn hc ?_ (fun _ => hholds m.data) ?_
    · rw [hpc, heldAt_inside hin, ho]
      exact .lock
    · rw [hpc]
      exact hnone
  | spurious => exact hi.wakeOne _

theorem inv (o : Outline P f) (h : Reachable P init m) : o.Inv init m :=
  h.invariant (inv_init o init) fun _ _ _ _ hi _ hs => Step.inv hi (step_cases hs)

/-- Calls on a monitor with a proof outline are linearizable. -/
theorem linearizable (o : Outline P f) (h : Reachable P init m) :
    Linearizable f init m.history m.data := by
  obtain ⟨t, ht, htr⟩ := (o.inv h).tracks
  exact ht ▸ htr.linearizable

/-- At most one call is at a point at which the mutex is held. -/
theorem exclusive (o : Outline P f) (h : Reachable P init m) {d : Nat} {call' : Call α κ ρ}
    (hc : m.calls[c]? = some call) (hpc : call.pc = .running k) (hk : o.inside k = true)
    (hd : m.calls[d]? = some call') (hpd : call'.pc = .running k') (hk' : o.inside k' = true) :
    c = d := by
  refine ((o.inv h).eq_of_held ?_ ?_)
  · rw [held_eq hd, hpd, heldAt_inside hk']
  · rw [held_eq hc, hpc, heldAt_inside hk]

end Outline

/-! ## Nobody sleeps who could go on -/

/-- A statement that lets a sleeping call go on leads to a `notifyAll`, by points at which
it is still owed. -/
structure Notifies {f : σ → α → Option (ρ × σ)} (o : Outline P f) (owed : κ → Bool)
    (ready : α → κ → σ → Prop) : Prop where
  lock : ∀ a k s k', P.code a k s = .lock k' → owed k = true → owed k' = true
  unlock : ∀ a k s k', P.code a k s = .unlock k' → owed k = true → owed k' = true
  run : ∀ a k s s' k', (o.inside k = true → o.holds a k s) → P.code a k s = .run s' k' →
    (owed k = true → owed k' = true) ∧
      ∀ a₀ k₀, ready a₀ k₀ s' → ready a₀ k₀ s ∨ owed k' = true
  wait : ∀ a k s k', (o.inside k = true → o.holds a k s) → P.code a k s = .wait k' →
    owed k = false ∧ ¬ ready a k' s
  notifyOne : ∀ a k s k', P.code a k s = .notifyOne k' → owed k = true → owed k' = true
  ret : ∀ a k s r, P.code a k s = .ret r → owed k = false

namespace Notifies

/-- The notification is on its way. -/
def Owed (owed : κ → Bool) (m : State σ α κ ρ) : Prop :=
  ∃ call ∈ m.calls, ∃ k, call.pc = .running k ∧ owed k = true

/-- No call sleeps that could go on, but for one that is about to be woken. -/
def Woken (owed : κ → Bool) (ready : α → κ → σ → Prop) (m : State σ α κ ρ) : Prop :=
  ∀ call ∈ m.calls, ∀ k, call.pc = .asleep k → ready call.arg k m.data → Owed owed m

variable {f : σ → α → Option (ρ × σ)} {o : Outline P f} {owed : κ → Bool}
  {ready : α → κ → σ → Prop} {init : σ} {c : Nat} {call : Call α κ ρ} {k k' : κ}

theorem Owed.goOn (h : Owed owed m) (hc : m.calls[c]? = some call) (hpc : call.pc = .running k)
    (hk : owed k = true → owed k' = true) :
    Owed owed (m.setPc c call (.running k')) := by
  obtain ⟨call', hmem, k₀, hpc', howed⟩ := h
  obtain ⟨d, hd⟩ := List.getElem?_of_mem hmem
  rcases @Heap.set_cases _ m.calls c d call call' { call with pc := .running k' } hc hd with
    ⟨-, rfl, hset⟩ | hset
  · obtain rfl : k = k₀ := Pc.running.inj (hpc.symm.trans hpc')
    exact ⟨_, List.mem_of_getElem? hset, k', rfl, hk howed⟩
  · exact ⟨call', List.mem_of_getElem? hset, k₀, hpc', howed⟩

/-- The call that owes the notification is another one. -/
theorem Owed.other (h : Owed owed m) (hc : m.calls[c]? = some call)
    (hpc : ∀ k, call.pc = .running k → owed k = false) (pc : Pc κ ρ) :
    Owed owed (m.setPc c call pc) := by
  obtain ⟨call', hmem, k₀, hpc', howed⟩ := h
  obtain ⟨d, hd⟩ := List.getElem?_of_mem hmem
  rcases @Heap.set_cases _ m.calls c d call call' { call with pc := pc } hc hd with
    ⟨-, rfl, -⟩ | hset
  · rw [hpc k₀ hpc'] at howed
    cases howed
  · exact ⟨call', List.mem_of_getElem? hset, k₀, hpc', howed⟩

theorem Owed.wakeOne (h : Owed owed m) (target : Nat) : Owed owed (m.wakeOne target) := by
  obtain ⟨call, hmem, k, hpc, howed⟩ := h
  obtain ⟨d, hd⟩ := List.getElem?_of_mem hmem
  have hawake : call.wake = call := wake_of_not_asleep fun ⟨k', hk'⟩ => by
    rw [hpc] at hk'
    cases hk'
  refine ⟨call, List.mem_of_getElem? (i := d) ?_, k, hpc, howed⟩
  show (m.calls.modify target Call.wake)[d]? = some call
  rw [List.getElem?_modify, hd]
  show some (if target = d then call.wake else call) = some call
  rw [hawake, ite_self]

theorem Woken.step (hn : Notifies o owed ready) (h : Woken owed ready m)
    (hi : o.Inv init m) (hs : Step P m m') : Woken owed ready m' := by
  have hholds : ∀ {c : Nat} {call : Call α κ ρ} {k : κ}, m.calls[c]? = some call →
      call.pc = .running k → o.inside k = true → o.holds call.arg k m.data := by
    intro c call k hc hpc
    have hat := hi.points c call hc
    rwa [hpc] at hat
  have hgoOn : ∀ {c : Nat} {call : Call α κ ρ} {k k' : κ}, m.calls[c]? = some call →
      call.pc = .running k → (owed k = true → owed k' = true) →
      Woken owed ready (m.setPc c call (.running k')) := by
    intro c call k k' hc hpc hk call' hmem k₀ hpc' hready
    have hold := asleep_setPc (fun _ => by simp) hmem ⟨k₀, hpc'⟩
    exact (h call' hold k₀ hpc' hready).goOn hc hpc hk
  cases hs with
  | call arg =>
    intro call' hmem k₀ hpc' hready
    rcases List.mem_append.mp hmem with hmem | hmem
    · obtain ⟨call, hmem₁, hcall⟩ := h call' hmem k₀ hpc' hready
      exact ⟨call, List.mem_append_left _ hmem₁, hcall⟩
    · rw [List.mem_singleton.mp hmem] at hpc'
      cases hpc'
  | lock hc hpc hk => exact hgoOn hc hpc (hn.lock _ _ _ _ hk)
  | unlock hc hpc hk => exact hgoOn hc hpc (hn.unlock _ _ _ _ hk)
  | @run c call k k' s hc hpc hk =>
    obtain ⟨howed, hready'⟩ := hn.run _ _ _ _ _ (hholds hc hpc) hk
    intro call' hmem k₀ hpc' hready
    have hmem : call' ∈ (m.setPc c call (.running k')).calls := hmem
    rcases hready' _ _ hready with hready | hnow
    · exact hgoOn hc hpc howed call' hmem k₀ hpc' hready
    · exact ⟨_, List.mem_of_getElem? (Heap.set_self hc _), k', rfl, hnow⟩
  | @wait c call k k' hc hpc hk =>
    obtain ⟨hnot, hblocked⟩ := hn.wait _ _ _ _ (hholds hc hpc) hk
    intro call' hmem k₀ hpc' hready
    obtain ⟨d, hd⟩ := List.getElem?_of_mem hmem
    rcases Heap.of_set hd with ⟨-, rfl⟩ | hd
    · obtain rfl : k' = k₀ := Pc.asleep.inj hpc'
      exact absurd hready hblocked
    · refine (h call' (List.mem_of_getElem? hd) k₀ hpc' hready).other hc (fun k₁ hk₁ => ?_) _
      obtain rfl : k = k₁ := Pc.running.inj (hpc.symm.trans hk₁)
      exact hnot
  | @notifyOne c target call k k' hc hpc hk =>
    intro call' hmem k₀ hpc' hready
    have hmem' := asleep_wakeOne hmem ⟨k₀, hpc'⟩
    exact (hgoOn hc hpc (hn.notifyOne _ _ _ _ hk) call' hmem' k₀ hpc' hready).wakeOne target
  | notifyAll =>
    intro call' hmem k₀ hpc'
    obtain ⟨call₀, -, rfl⟩ := List.mem_map.mp hmem
    exact absurd ⟨k₀, hpc'⟩ wake_not_asleep
  | @ret c call k r hc hpc hk =>
    intro call' hmem k₀ hpc' hready
    have hold := asleep_setPc (fun _ => by simp) hmem ⟨k₀, hpc'⟩
    refine (h call' hold k₀ hpc' hready).other hc (fun k₁ hk₁ => ?_) _
    obtain rfl : k = k₁ := Pc.running.inj (hpc.symm.trans hk₁)
    exact hn.ret _ _ _ _ hk
  | @relock c call k hc hpc =>
    intro call' hmem k₀ hpc' hready
    have hold := asleep_setPc (fun _ => by simp) hmem ⟨k₀, hpc'⟩
    refine (h call' hold k₀ hpc' hready).other hc (fun k₁ hk₁ => ?_) _
    rw [hpc] at hk₁
    cases hk₁
  | @spurious c call hc hs =>
    intro call' hmem k₀ hpc' hready
    have hold := asleep_wakeOne hmem ⟨k₀, hpc'⟩
    exact (h call' hold k₀ hpc' hready).wakeOne c

theorem woken (hn : Notifies o owed ready) (h : Reachable P init m) : Woken owed ready m :=
  h.invariant (fun _ hmem => absurd hmem List.not_mem_nil)
    fun _ _ _ hr hi _ hs => Woken.step hn hi (o.inv hr) (step_cases hs)

end Notifies

end Monitor
