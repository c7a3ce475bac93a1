import RocketmqProxy.QueueTS

/-!
# The thread-safe queue is a queue

Any number of threads may call any of the functions at any time: the calls are those of the
sequential queue, taken one after the other, and the values come out in the order in which
they have gone in.
-/

namespace RocketmqProxy
namespace QueueTS

open Linear Monitor

variable {T : Type}

/-! ## The outline -/

def inside : QueuePc T → Bool
  | .lock | .return _ => false
  | _ => true

def result : QueuePc T → Option (Ret T)
  | .notify => some .void
  | .unlock r | .return r => some r
  | _ => none

/-- What a call knows of the queue at a point of its function. -/
def Holds (op : Op T) (k : QueuePc T) (q : List T) : Prop :=
  match k with
  | .push value => op = .push value
  | .tryTest => op = .tryPop
  | .tryFront => op = .tryPop ∧ q ≠ []
  | .tryPop value => op = .tryPop ∧ q.head? = some value
  | .waitTest => op = .waitAndPop
  | .waitSleep => op = .waitAndPop ∧ q = []
  | .waitFront => op = .waitAndPop ∧ q ≠ []
  | .waitPop value => op = .waitAndPop ∧ q.head? = some value
  | .empty => op = .empty
  | .size => op = .size
  | .lock | .notify | .unlock _ | .return _ => True

theorem holds_body (op : Op T) (q : List T) : Holds op op.body q := by
  cases op <;> rfl

theorem body_inside (op : Op T) : inside op.body = true := by
  cases op <;> rfl

theorem body_result (op : Op T) : result op.body = none := by
  cases op <;> rfl

theorem sound (op : Op T) (k : QueuePc T) (q : List T) (h : inside k = true → Holds op k q) :
    Sound spec inside result Holds op k q (code op k q) := by
  cases k with
  | lock => exact ⟨rfl, body_inside op, body_result op, holds_body op⟩
  | push value =>
    obtain rfl : op = .push value := h rfl
    exact ⟨rfl, fun _ => trivial, .inr ⟨rfl, rfl, _, rfl, rfl⟩⟩
  | notify => exact ⟨rfl, rfl, fun _ => trivial⟩
  | tryTest =>
    obtain rfl : op = .tryPop := h rfl
    cases q with
    | nil => exact ⟨rfl, fun _ => trivial, .inr ⟨rfl, rfl, _, rfl, rfl⟩⟩
    | cons value rest =>
      exact ⟨rfl, fun _ => ⟨rfl, List.cons_ne_nil value rest⟩, .inl ⟨rfl, rfl⟩⟩
  | tryFront =>
    obtain ⟨rfl, hq⟩ := h rfl
    cases q with
    | nil => exact absurd rfl hq
    | cons value rest => exact ⟨rfl, fun _ => ⟨rfl, rfl⟩, .inl ⟨rfl, rfl⟩⟩
  | tryPop value =>
    obtain ⟨rfl, hq⟩ := h rfl
    obtain ⟨rest, rfl⟩ := List.head?_eq_some_iff.mp hq
    exact ⟨rfl, fun _ => trivial, .inr ⟨rfl, rfl, _, rfl, rfl⟩⟩
  | waitTest =>
    obtain rfl : op = .waitAndPop := h rfl
    cases q with
    | nil => exact ⟨rfl, fun _ => ⟨rfl, rfl⟩, .inl ⟨rfl, rfl⟩⟩
    | cons value rest =>
      exact ⟨rfl, fun _ => ⟨rfl, List.cons_ne_nil value rest⟩, .inl ⟨rfl, rfl⟩⟩
  | waitSleep =>
    obtain ⟨rfl, -⟩ := h rfl
    exact ⟨rfl, rfl, rfl, rfl, fun _ => rfl⟩
  | waitFront =>
    obtain ⟨rfl, hq⟩ := h rfl
    cases q with
    | nil => exact absurd rfl hq
    | cons value rest => exact ⟨rfl, fun _ => ⟨rfl, rfl⟩, .inl ⟨rfl, rfl⟩⟩
  | waitPop value =>
    obtain ⟨rfl, hq⟩ := h rfl
    obtain ⟨rest, rfl⟩ := List.head?_eq_some_iff.mp hq
    exact ⟨rfl, fun _ => trivial, .inr ⟨rfl, rfl, _, rfl, rfl⟩⟩
  | empty =>
    obtain rfl : op = .empty := h rfl
    exact ⟨rfl, fun _ => trivial, .inr ⟨rfl, rfl, _, rfl, rfl⟩⟩
  | size =>
    obtain rfl : op = .size := h rfl
    exact ⟨rfl, fun _ => trivial, .inr ⟨rfl, rfl, _, rfl, rfl⟩⟩
  | unlock r => exact ⟨rfl, rfl, rfl⟩
  | «return» r => exact ⟨rfl, rfl⟩

variable (T) in
def outline : Outline (program T) spec where
  inside := inside
  result := result
  holds := Holds
  start_inside _ := rfl
  start_result _ := rfl
  sound := sound

/-! ## First in, first out -/

/-- The value that a call has put into the queue. -/
def pushed (op : Linear.Op (Op T) (Ret T)) : Option T :=
  match op.arg with
  | .push value => some value
  | _ => none

/-- The value that a call has taken out of the queue. -/
def popped (op : Linear.Op (Op T) (Ret T)) : Option T :=
  match op.ret with
  | .value value => some value
  | .popped value => value
  | _ => none

theorem spec_order {q q' : List T} {op : Linear.Op (Op T) (Ret T)}
    (h : spec q op.arg = some (op.ret, q')) :
    q ++ (pushed op).toList = (popped op).toList ++ q' := by
  obtain ⟨c, arg, ret⟩ := op
  cases arg with
  | push value =>
    obtain ⟨rfl, rfl⟩ := Prod.mk.inj (Option.some.inj h)
    rfl
  | waitAndPop =>
    cases q with
    | nil => cases h
    | cons value rest =>
      obtain ⟨rfl, rfl⟩ := Prod.mk.inj (Option.some.inj h)
      exact List.append_nil _
  | tryPop =>
    cases q with
    | nil =>
      obtain ⟨rfl, rfl⟩ := Prod.mk.inj (Option.some.inj h)
      rfl
    | cons value rest =>
      obtain ⟨rfl, rfl⟩ := Prod.mk.inj (Option.some.inj h)
      exact List.append_nil _
  | empty | size =>
    obtain ⟨rfl, rfl⟩ := Prod.mk.inj (Option.some.inj h)
    exact List.append_nil _

theorem legal_order {q q' : List T} {ops : List (Linear.Op (Op T) (Ret T))}
    (h : Legal spec q ops q') : q ++ ops.filterMap pushed = ops.filterMap popped ++ q' := by
  induction h with
  | nil => exact List.append_nil q
  | concat _ hop ih =>
    rw [History.filterMap_concat, History.filterMap_concat, ← List.append_assoc, ih,
      List.append_assoc, spec_order hop, List.append_assoc]

/-- Calls from any number of threads are calls of a queue taken one after the other: each
value that has been in the queue is there or has been handed to one call, in order. -/
theorem fifo {q : List T} {m : State (List T) (Op T) (QueuePc T) (Ret T)}
    (h : Reachable (program T) q m) : ∃ ops, Legal spec q ops m.data ∧
      Explains ops m.history ∧ q ++ ops.filterMap pushed = ops.filterMap popped ++ m.data := by
  obtain ⟨ops, hlegal, hexplains⟩ := (outline T).linearizable h
  exact ⟨ops, hlegal, hexplains, legal_order hlegal⟩

/-- A call waits for the value that another puts into the queue. -/
theorem fifo_wait : ∃ m : State (List Nat) (Op Nat) (QueuePc Nat) (Ret Nat),
    Reachable (program Nat) [] m ∧ m.data = [] ∧
      m.history = [.invoke 0 .waitAndPop, .invoke 1 (.push 7), .respond 1 .void,
        .respond 0 (.value 7)] ∧
      ∃ ops, Legal spec [] ops m.data ∧ Explains ops m.history ∧
        [] ++ ops.filterMap pushed = ops.filterMap popped ++ m.data := by
  have hrun : Runs.exec (State.step (program Nat)) (.init [])
      ([.call .waitAndPop, .turn 0 0, .turn 0 0, .turn 0 0, .call (.push 7)] ++
        List.replicate 5 (.turn 1 0) ++ List.replicate 6 (.turn 0 0)) = some _ := rfl
  have hreach := Runs.Reach.of_exec .init hrun
  exact ⟨_, hreach, rfl, rfl, fifo hreach⟩

end QueueTS
end RocketmqProxy
