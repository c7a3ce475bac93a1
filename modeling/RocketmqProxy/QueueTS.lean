import RocketmqProxy.Lib.Monitor

/-!
# The thread-safe queue

`QueueTS` with its mutex and its condition variable, one statement at a time, and the
sequential queue that the rest of the development takes it for.
-/

namespace RocketmqProxy
namespace QueueTS

open Monitor

variable {T : Type}

inductive Op (T : Type)
  | push (value : T)
  | waitAndPop
  | tryPop
  | empty
  | size
deriving DecidableEq, Repr

/-- What a call returns.  `popped none` is the `false` of `try_pop`. -/
inductive Ret (T : Type)
  | void
  | value (value : T)
  | popped (value : Option T)
  | bool (b : Bool)
  | size (n : Nat)
deriving DecidableEq, Repr

inductive QueuePc (T : Type)
  /-- The lock at the start of every function. -/
  | lock
  | push (value : T)
  | notify
  /-- `data_queue.empty()` in `try_pop`. -/
  | tryTest
  | tryFront
  | tryPop (value : T)
  /-- The predicate of `data_cond.wait`. -/
  | waitTest
  | waitSleep
  | waitFront
  | waitPop (value : T)
  | empty
  | size
  /-- The end of the scope of the lock. -/
  | unlock (r : Ret T)
  | return (r : Ret T)
deriving DecidableEq, Repr

/-- The first statement under the lock. -/
def Op.body : Op T → QueuePc T
  | push value => .push value
  | waitAndPop => .waitTest
  | tryPop => .tryTest
  | empty => .empty
  | size => .size

def code (op : Op T) (k : QueuePc T) (q : List T) : Act (List T) (QueuePc T) (Ret T) :=
  match k with
  | .lock => .lock op.body
  | .push value => .run (q ++ [value]) .notify
  | .notify => .notifyOne (.unlock .void)
  | .tryTest => .run q (if q.isEmpty then .unlock (.popped none) else .tryFront)
  | .tryFront =>
    match q with
    | value :: _ => .run q (.tryPop value)
    -- there is no front
    | [] => .run q .tryFront
  | .tryPop value => .run q.tail (.unlock (.popped (some value)))
  | .waitTest => .run q (if q.isEmpty then .waitSleep else .waitFront)
  | .waitSleep => .wait .waitTest
  | .waitFront =>
    match q with
    | value :: _ => .run q (.waitPop value)
    | [] => .run q .waitFront
  | .waitPop value => .run q.tail (.unlock (.value value))
  | .empty => .run q (.unlock (.bool q.isEmpty))
  | .size => .run q (.unlock (.size q.length))
  | .unlock r => .unlock (.return r)
  | .return r => .ret r

variable (T) in
def program : Program (List T) (Op T) (QueuePc T) (Ret T) where
  start _ := .lock
  code := code

/-- The sequential queue.  `wait_and_pop` waits while it is empty. -/
def spec (q : List T) : Op T → Option (Ret T × List T)
  | .push value => some (.void, q ++ [value])
  | .waitAndPop =>
    match q with
    | value :: rest => some (.value value, rest)
    | [] => none
  | .tryPop =>
    match q with
    | value :: rest => some (.popped (some value), rest)
    | [] => some (.popped none, [])
  | .empty => some (.bool q.isEmpty, q)
  | .size => some (.size q.length, q)

end QueueTS
end RocketmqProxy
