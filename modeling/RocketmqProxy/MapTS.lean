import RocketmqProxy.Lib.Iterator
import RocketmqProxy.Lib.Monitor

/-!
# The thread-safe map

`MapTS.hpp`: a `std::map` under one mutex, with a condition variable that the insertions
notify once they have unlocked the mutex.  An iterator is the key it stands at.  Each
statement is a step, so that calls of any functions interleave.
-/

namespace RocketmqProxy
namespace MapTS

open Monitor
open Std (TreeMap)

variable {Key T : Type} [Ord Key]

inductive Op (Key T : Type)
  | insert (inputKey : Key) (inputValue : T)
  | insertOrUpdate (inputKey : Key) (inputValue : T)
  | empty
  | tryGet (inputKey : Key)
  | waitAndGet (inputKey : Key)
  | waitNextInsert
  | erase (inputKey : Key)
  | size
  /-- With what the vector holds already. -/
  | getAllKeys (keys : List Key)
deriving DecidableEq, Repr

/-- What a call returns, or leaves in the argument it writes to.  `got none` is the `false`
of `try_get`. -/
inductive Ret (Key T : Type)
  | void
  | value (outputValue : T)
  | got (outputValue : Option T)
  | bool (b : Bool)
  | size (n : Nat)
  | keys (keys : List Key)
deriving DecidableEq, Repr

inductive MapPc (Key T : Type)
  /-- `keys.reserve(the_map.size())`, which `getAllKeys` runs before it locks. -/
  | reserve
  | lock
  | insert (inputKey : Key) (inputValue : T)
  -- `insert_or_update`
  | find (inputKey : Key) (inputValue : T)
  | assign (inputKey : Key) (inputValue : T)
  /-- `lock.unlock()`. -/
  | unlockFirst
  | notify
  | empty
  -- `try_get`
  | tryFind (inputKey : Key)
  | tryRead (it : Key)
  -- `wait_and_get`
  | waitFind (inputKey : Key)
  | waitSleep (inputKey : Key)
  | waitRead (it : Key)
  -- `wait_next_insert`
  | nextSleep
  | nextWoken
  | erase (inputKey : Key)
  | size
  -- the loop of `getAllKeys`
  | begin (keys : List Key)
  | pushBack (keys : List Key) (imap : Key)
  /-- The end of the scope of the lock. -/
  | unlock (r : Ret Key T)
  | return (r : Ret Key T)
deriving DecidableEq, Repr

/-- The first statement under the lock. -/
def Op.body : Op Key T → MapPc Key T
  | insert inputKey inputValue => .insert inputKey inputValue
  | insertOrUpdate inputKey inputValue => .find inputKey inputValue
  | empty => .empty
  | tryGet inputKey => .tryFind inputKey
  | waitAndGet inputKey => .waitFind inputKey
  | waitNextInsert => .nextSleep
  | erase inputKey => .erase inputKey
  | size => .size
  | getAllKeys keys => .begin keys

def code (op : Op Key T) (k : MapPc Key T) (m : TreeMap Key T) :
    Act (TreeMap Key T) (MapPc Key T) (Ret Key T) :=
  match k with
  -- what is reserved shows nowhere
  | .reserve => .run m .lock
  | .lock => .lock op.body
  | .insert inputKey inputValue => .run (m.insertIfNew inputKey inputValue) .unlockFirst
  | .find inputKey inputValue =>
    .run m (if inputKey ∈ m then .assign inputKey inputValue else .insert inputKey inputValue)
  | .assign inputKey inputValue => .run (m.insert inputKey inputValue) .unlockFirst
  | .unlockFirst => .unlock .notify
  | .notify => .notifyAll (.return .void)
  | .empty => .run m (.unlock (.bool m.isEmpty))
  | .tryFind inputKey =>
    .run m (if inputKey ∈ m then .tryRead inputKey else .unlock (.got none))
  | .tryRead it =>
    match m[it]? with
    | some outputValue => .run m (.unlock (.got (some outputValue)))
    -- the iterator does not stand at an entry
    | none => .run m (.tryRead it)
  | .waitFind inputKey =>
    .run m (if inputKey ∈ m then .waitRead inputKey else .waitSleep inputKey)
  | .waitSleep inputKey => .wait (.waitFind inputKey)
  | .waitRead it =>
    match m[it]? with
    | some outputValue => .run m (.unlock (.value outputValue))
    | none => .run m (.waitRead it)
  | .nextSleep => .wait .nextWoken
  | .nextWoken => .run m (.unlock .void)
  | .erase inputKey => .run (m.erase inputKey) (.unlock .void)
  | .size => .run m (.unlock (.size m.size))
  -- `keys.empty()` has removed nothing
  | .begin keys =>
    .run m ((Iterator.first m).elim (.unlock (.keys keys)) fun p => .pushBack keys p.1)
  | .pushBack keys imap =>
    .run m ((Iterator.next m imap).elim (.unlock (.keys (keys ++ [imap])))
      fun p => .pushBack (keys ++ [imap]) p.1)
  | .unlock r => .unlock (.return r)
  | .return r => .ret r

variable (Key T) in
def program : Program (TreeMap Key T) (Op Key T) (MapPc Key T) (Ret Key T) where
  start
    | .getAllKeys _ => .reserve
    | _ => .lock
  code := code

/-- The sequential map.  `wait_and_get` waits while the key is missing, and
`wait_next_insert` may end at any time. -/
def spec (m : TreeMap Key T) : Op Key T → Option (Ret Key T × TreeMap Key T)
  | .insert inputKey inputValue => some (.void, m.insertIfNew inputKey inputValue)
  | .insertOrUpdate inputKey inputValue => some (.void, m.insert inputKey inputValue)
  | .empty => some (.bool m.isEmpty, m)
  | .tryGet inputKey => some (.got m[inputKey]?, m)
  | .waitAndGet inputKey => m[inputKey]?.map fun outputValue => (.value outputValue, m)
  | .waitNextInsert => some (.void, m)
  | .erase inputKey => some (.void, m.erase inputKey)
  | .size => some (.size m.size, m)
  | .getAllKeys keys => some (.keys (keys ++ m.keys), m)

end MapTS
end RocketmqProxy
