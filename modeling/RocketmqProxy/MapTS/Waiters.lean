import RocketmqProxy.MapTS.Linear

/-!
# Nobody is left asleep in `wait_and_get`

An insertion notifies once it has unlocked the mutex, so for a while calls sleep whose key
is there.  The call that has inserted it is then still to notify them.
-/

namespace RocketmqProxy
namespace MapTS

open Monitor
open Std (TreeMap)

variable {Key T : Type} [Ord Key]

/-- The call has inserted, and is still to notify. -/
def owed : MapPc Key T → Bool
  | .unlockFirst | .notify => true
  | _ => false

/-- A call of `wait_and_get` could go on: its key is in the map. -/
def Ready (op : Op Key T) (_ : MapPc Key T) (m : TreeMap Key T) : Prop :=
  ∃ inputKey, op = .waitAndGet inputKey ∧ inputKey ∈ m

/-- A call that owes the notification unlocks the mutex and notifies. -/
theorem not_owed {op : Op Key T} {k : MapPc Key T} {m : TreeMap Key T}
    {act : Act (TreeMap Key T) (MapPc Key T) (Ret Key T)} (h : code op k m = act)
    (hunlock : act ≠ .unlock .notify) (hnotify : act ≠ .notifyAll (.return .void)) :
    owed k = false := by
  cases k with
  | unlockFirst => exact absurd h.symm hunlock
  | notify => exact absurd h.symm hnotify
  | _ => rfl

theorem wait_blocked {op : Op Key T} {k k' : MapPc Key T} {m : TreeMap Key T}
    (hat : inside k = true → Holds op k m) (h : code op k m = .wait k') :
    ¬ Ready op k' m := by
  rintro ⟨inputKey, rfl, hmem⟩
  cases k with
  | waitSleep inputKey' =>
    obtain ⟨hop, hnot⟩ := hat rfl
    obtain rfl : inputKey = inputKey' := Op.waitAndGet.inj hop
    exact hnot hmem
  | nextSleep => cases hat rfl
  | tryRead it | waitRead it =>
    rw [code] at h
    split at h <;> cases h
  | _ => cases h

theorem unlock_owed {op : Op Key T} {k k' : MapPc Key T} {m : TreeMap Key T}
    (h : code op k m = .unlock k') (hk : owed k = true) : owed k' = true := by
  cases k with
  | unlockFirst =>
    obtain rfl := Act.unlock.inj h
    rfl
  | notify => cases h
  | _ => cases hk

variable [Std.TransOrd Key]

/-- What a statement on the map does to the keys. -/
theorem run_owed {op : Op Key T} {k k' : MapPc Key T} {m m' : TreeMap Key T}
    (h : code op k m = .run m' k') :
    owed k = false ∧ (owed k' = true ∨ ∀ key ∈ m', key ∈ m) := by
  cases k with
  | unlockFirst | notify | lock | waitSleep | nextSleep | unlock | «return» => cases h
  | reserve | empty | nextWoken | size | begin | pushBack | find | tryFind | waitFind =>
    obtain ⟨rfl, -⟩ := Act.run.inj h
    exact ⟨rfl, .inr fun _ hkey => hkey⟩
  | tryRead it | waitRead it =>
    rw [code] at h
    split at h <;>
      · obtain ⟨rfl, -⟩ := Act.run.inj h
        exact ⟨rfl, .inr fun _ hkey => hkey⟩
  | insert | assign =>
    obtain ⟨-, rfl⟩ := Act.run.inj h
    exact ⟨rfl, .inl rfl⟩
  | erase inputKey =>
    obtain ⟨rfl, -⟩ := Act.run.inj h
    exact ⟨rfl, .inr fun _ hkey => (TreeMap.mem_erase.mp hkey).2⟩

variable [Std.LawfulEqOrd Key]

theorem notifies : Notifies (outline Key T) owed Ready where
  lock _ _ _ _ h hk := absurd ((not_owed h (by simp) (by simp)).symm.trans hk) Bool.false_ne_true
  unlock _ _ _ _ := unlock_owed
  run _ _ _ _ _ _ h := by
    obtain ⟨hk, hkeys⟩ := run_owed h
    refine ⟨fun hk' => absurd (hk.symm.trans hk') Bool.false_ne_true, ?_⟩
    rintro a₀ - ⟨inputKey, rfl, hmem⟩
    rcases hkeys with howed | hold
    · exact .inr howed
    · exact .inl ⟨inputKey, rfl, hold inputKey hmem⟩
  wait _ _ _ _ hat h := ⟨not_owed h (by simp) (by simp), wait_blocked hat h⟩
  notifyOne _ _ _ _ h hk :=
    absurd ((not_owed h (by simp) (by simp)).symm.trans hk) Bool.false_ne_true
  ret _ _ _ _ h := not_owed h (by simp) (by simp)

/-- However the calls interleave: while a call of `wait_and_get` sleeps although its key is
in the map, another call has inserted and is about to notify it. -/
theorem sleeper_notified {m₀ : TreeMap Key T}
    {s : State (TreeMap Key T) (Op Key T) (MapPc Key T) (Ret Key T)}
    (h : Reachable (program Key T) m₀ s) {call : Call (Op Key T) (MapPc Key T) (Ret Key T)}
    (hmem : call ∈ s.calls) {inputKey : Key} (harg : call.arg = .waitAndGet inputKey)
    (hs : call.Asleep) (hkey : inputKey ∈ s.data) :
    ∃ call' ∈ s.calls, call'.pc = .running .unlockFirst ∨ call'.pc = .running .notify := by
  obtain ⟨k, hpc⟩ := hs
  obtain ⟨call', hmem', k', hpc', howed⟩ :=
    notifies.woken h call hmem k hpc ⟨inputKey, harg, hkey⟩
  refine ⟨call', hmem', ?_⟩
  cases k' with
  | unlockFirst => exact .inl hpc'
  | notify => exact .inr hpc'
  | _ => cases howed

/-- A call sleeps, and the other has inserted its key and unlocked the mutex. -/
theorem sleeper_notified_insert :
    ∃ s : State (TreeMap Nat Nat) (Op Nat Nat) (MapPc Nat Nat) (Ret Nat Nat),
      Reachable (program Nat Nat) ∅ s ∧
      s.calls = [⟨.waitAndGet 3, .asleep (.waitFind 3)⟩, ⟨.insert 3 30, .running .notify⟩] ∧
      3 ∈ s.data ∧
      ∃ call' ∈ s.calls, call'.pc = .running .unlockFirst ∨ call'.pc = .running .notify := by
  have hrun : Runs.exec (State.step (program Nat Nat)) (.init ∅)
      ([.call (.waitAndGet 3)] ++ List.replicate 3 (.turn 0 0) ++ [.call (.insert 3 30)] ++
        List.replicate 3 (.turn 1 0)) = some _ := rfl
  have hreach := Runs.Reach.init.of_exec hrun
  have hkey : 3 ∈ (∅ : TreeMap Nat Nat).insertIfNew 3 30 := TreeMap.mem_insertIfNew_self
  exact ⟨_, hreach, rfl, hkey,
    sleeper_notified hreach List.mem_cons_self rfl ⟨_, rfl⟩ hkey⟩

end MapTS
end RocketmqProxy
