import RocketmqProxy.Lib.TreeMap
import RocketmqProxy.MapTS

/-!
# The thread-safe map is a map

Any number of threads may call any of the functions at any time: the calls are those of the
sequential map, taken one after the other.  In particular `getAllKeys` appends the keys as
they are at one moment.
-/

namespace RocketmqProxy
namespace MapTS

open Linear Monitor
open Std (TreeMap)

variable {Key T : Type}

/-! ## The outline -/

def inside : MapPc Key T → Bool
  | .reserve | .lock | .notify | .return _ => false
  | _ => true

def result : MapPc Key T → Option (Ret Key T)
  | .unlockFirst | .notify => some .void
  | .unlock r | .return r => some r
  | _ => none

theorem body_inside (op : Op Key T) : inside op.body = true := by
  cases op <;> rfl

theorem body_result (op : Op Key T) : result op.body = none := by
  cases op <;> rfl

variable [Ord Key]

/-- What a call knows of the map at a point of its function. -/
def Holds (op : Op Key T) (k : MapPc Key T) (m : TreeMap Key T) : Prop :=
  match k with
  | .insert inputKey inputValue => op = .insert inputKey inputValue ∨
      op = .insertOrUpdate inputKey inputValue ∧ inputKey ∉ m
  | .find inputKey inputValue | .assign inputKey inputValue =>
    op = .insertOrUpdate inputKey inputValue
  | .empty => op = .empty
  | .tryFind inputKey => op = .tryGet inputKey
  | .tryRead it => op = .tryGet it ∧ it ∈ m
  | .waitFind inputKey => op = .waitAndGet inputKey
  | .waitSleep inputKey => op = .waitAndGet inputKey ∧ inputKey ∉ m
  | .waitRead it => op = .waitAndGet it ∧ it ∈ m
  | .nextSleep | .nextWoken => op = .waitNextInsert
  | .erase inputKey => op = .erase inputKey
  | .size => op = .size
  | .begin keys => op = .getAllKeys keys
  | .pushBack keys imap => ∃ keys₀ pre rest,
      op = .getAllKeys keys₀ ∧ m.keys = pre ++ imap :: rest ∧ keys = keys₀ ++ pre
  | .reserve | .lock | .unlockFirst | .notify | .unlock _ | .return _ => True

theorem holds_body (op : Op Key T) (m : TreeMap Key T) : Holds op op.body m := by
  cases op with
  | insert => exact .inl rfl
  | _ => rfl

/-- What the loop of `getAllKeys` does next, with `rest` still to come. -/
theorem holds_loop (keys₀ : List Key) {pre rest : List Key} {m : TreeMap Key T}
    (hkeys : m.keys = pre ++ rest) :
    let k : MapPc Key T := rest.head?.elim (.unlock (.keys (keys₀ ++ pre)))
      (.pushBack (keys₀ ++ pre))
    inside k = true ∧ Holds (.getAllKeys keys₀) k m ∧
      (result k = none ∨ result k = some (.keys (keys₀ ++ m.keys))) := by
  cases rest with
  | nil =>
    refine ⟨rfl, trivial, .inr ?_⟩
    rw [hkeys, List.append_nil]
    rfl
  | cons imap rest => exact ⟨rfl, ⟨keys₀, pre, rest, rfl, hkeys, rfl⟩, .inl rfl⟩

variable [Std.TransOrd Key]

theorem keys_sorted {m m' : TreeMap Key T} {keys ks : List Key}
    (h : spec m (.getAllKeys keys) = some (Ret.keys ks, m')) :
    ∃ new, ks = keys ++ new ∧ new.Pairwise fun a b => compare a b = .lt := by
  obtain ⟨hks, -⟩ := Prod.mk.inj (Option.some.inj h)
  exact ⟨m.keys, (Ret.keys.inj hks).symm, TreeMap.ordered_keys⟩

variable [Std.LawfulEqOrd Key]

theorem sound (op : Op Key T) (k : MapPc Key T) (m : TreeMap Key T)
    (h : inside k = true → Holds op k m) :
    Sound spec inside result Holds op k m (code op k m) := by
  cases k with
  | reserve => exact ⟨rfl, fun h => absurd h (by simp [inside]), .inl ⟨rfl, rfl⟩⟩
  | lock => exact ⟨rfl, body_inside op, body_result op, holds_body op⟩
  | insert inputKey inputValue =>
    refine ⟨rfl, fun _ => trivial, .inr ⟨rfl, rfl, _, rfl, ?_⟩⟩
    rcases h rfl with rfl | ⟨rfl, hnew⟩
    · rfl
    · rw [TreeMapLoop.insertIfNew_of_not_mem hnew]
      rfl
  | find inputKey inputValue =>
    obtain rfl : op = .insertOrUpdate inputKey inputValue := h rfl
    rw [code]
    split
    · exact ⟨rfl, fun _ => rfl, .inl ⟨rfl, rfl⟩⟩
    · next hnew => exact ⟨rfl, fun _ => .inr ⟨rfl, hnew⟩, .inl ⟨rfl, rfl⟩⟩
  | assign inputKey inputValue =>
    obtain rfl : op = .insertOrUpdate inputKey inputValue := h rfl
    exact ⟨rfl, fun _ => trivial, .inr ⟨rfl, rfl, _, rfl, rfl⟩⟩
  | unlockFirst => exact ⟨rfl, rfl, rfl⟩
  | notify => exact ⟨rfl, rfl, fun h => absurd h (by simp [inside])⟩
  | empty =>
    obtain rfl : op = .empty := h rfl
    exact ⟨rfl, fun _ => trivial, .inr ⟨rfl, rfl, _, rfl, rfl⟩⟩
  | tryFind inputKey =>
    obtain rfl : op = .tryGet inputKey := h rfl
    rw [code]
    split
    · next hmem => exact ⟨rfl, fun _ => ⟨rfl, hmem⟩, .inl ⟨rfl, rfl⟩⟩
    · next hmem =>
      refine ⟨rfl, fun _ => trivial, .inr ⟨rfl, rfl, _, rfl, ?_⟩⟩
      rw [spec, TreeMap.getElem?_eq_none hmem]
  | tryRead it =>
    obtain ⟨rfl, hmem⟩ := h rfl
    have hit := TreeMap.getElem?_eq_some_getElem hmem
    rw [code, hit]
    refine ⟨rfl, fun _ => trivial, .inr ⟨rfl, rfl, _, rfl, ?_⟩⟩
    rw [spec, hit]
  | waitFind inputKey =>
    obtain rfl : op = .waitAndGet inputKey := h rfl
    rw [code]
    split
    · next hmem => exact ⟨rfl, fun _ => ⟨rfl, hmem⟩, .inl ⟨rfl, rfl⟩⟩
    · next hmem => exact ⟨rfl, fun _ => ⟨rfl, hmem⟩, .inl ⟨rfl, rfl⟩⟩
  | waitSleep inputKey =>
    obtain ⟨rfl, -⟩ := h rfl
    exact ⟨rfl, rfl, rfl, rfl, fun _ => rfl⟩
  | waitRead it =>
    obtain ⟨rfl, hmem⟩ := h rfl
    have hit := TreeMap.getElem?_eq_some_getElem hmem
    rw [code, hit]
    refine ⟨rfl, fun _ => trivial, .inr ⟨rfl, rfl, _, rfl, ?_⟩⟩
    rw [spec, hit]
    rfl
  | nextSleep =>
    obtain rfl : op = .waitNextInsert := h rfl
    exact ⟨rfl, rfl, rfl, rfl, fun _ => rfl⟩
  | nextWoken =>
    obtain rfl : op = .waitNextInsert := h rfl
    exact ⟨rfl, fun _ => trivial, .inr ⟨rfl, rfl, _, rfl, rfl⟩⟩
  | erase inputKey =>
    obtain rfl : op = .erase inputKey := h rfl
    exact ⟨rfl, fun _ => trivial, .inr ⟨rfl, rfl, _, rfl, rfl⟩⟩
  | size =>
    obtain rfl : op = .size := h rfl
    exact ⟨rfl, fun _ => trivial, .inr ⟨rfl, rfl, _, rfl, rfl⟩⟩
  | begin keys =>
    obtain rfl : op = .getAllKeys keys := h rfl
    rw [code, Iterator.first_elim m (MapPc.unlock (.keys keys)) (MapPc.pushBack keys)]
    have hkeys : m.keys = [] ++ m.keys := rfl
    obtain ⟨hin, hholds, hres⟩ := holds_loop keys hkeys
    rw [List.append_nil] at hin hholds hres
    refine ⟨hin, fun _ => hholds, ?_⟩
    rcases hres with hres | hres
    · exact .inl ⟨rfl, hres⟩
    · exact .inr ⟨rfl, rfl, _, hres, rfl⟩
  | pushBack keys imap =>
    obtain ⟨keys₀, pre, rest, rfl, hkeys, rfl⟩ := h rfl
    rw [code, Iterator.next_elim hkeys (MapPc.unlock (.keys (keys₀ ++ pre ++ [imap])))
      (MapPc.pushBack (keys₀ ++ pre ++ [imap])), List.append_assoc]
    have hkeys' : m.keys = (pre ++ [imap]) ++ rest := by
      rw [hkeys, List.append_assoc]
      rfl
    obtain ⟨hin, hholds, hres⟩ := holds_loop keys₀ hkeys'
    refine ⟨hin, fun _ => hholds, ?_⟩
    rcases hres with hres | hres
    · exact .inl ⟨rfl, hres⟩
    · exact .inr ⟨rfl, rfl, _, hres, rfl⟩
  | unlock r => exact ⟨rfl, rfl, rfl⟩
  | «return» r => exact ⟨rfl, rfl⟩

variable (Key T) in
def outline : Outline (program Key T) spec where
  inside := inside
  result := result
  holds := Holds
  start_inside op := by cases op <;> rfl
  start_result op := by cases op <;> rfl
  sound := sound

/-! ## The calls -/

/-- Calls from any number of threads are calls of a map taken one after the other, and what
`getAllKeys` appends is in order, without repetition. -/
theorem one_after_the_other {m₀ : TreeMap Key T}
    {s : State (TreeMap Key T) (Op Key T) (MapPc Key T) (Ret Key T)}
    (h : Reachable (program Key T) m₀ s) : ∃ ops, Legal spec m₀ ops s.data ∧
      Explains ops s.history ∧ ∀ op ∈ ops, ∀ keys ks, op.arg = .getAllKeys keys →
        op.ret = Ret.keys ks →
          ∃ new, ks = keys ++ new ∧ new.Pairwise fun a b => compare a b = .lt := by
  obtain ⟨ops, hlegal, hexplains⟩ := (outline Key T).linearizable h
  refine ⟨ops, hlegal, hexplains, fun op hop keys ks harg hret => ?_⟩
  obtain ⟨m, m', hstep⟩ := hlegal.of_mem hop
  rw [harg, hret] at hstep
  exact keys_sorted hstep

/-- A call that lists the keys starts before an insertion, which it then sees. -/
theorem one_after_the_other_insert :
    ∃ s : State (TreeMap Nat Nat) (Op Nat Nat) (MapPc Nat Nat) (Ret Nat Nat),
      Reachable (program Nat Nat) ∅ s ∧
      s.history = [.invoke 0 (.getAllKeys [5]), .invoke 1 (.insert 3 30), .respond 1 .void,
        .respond 0 (.keys [5, 3])] ∧
      ∃ ops, Legal spec ∅ ops s.data ∧ Explains ops s.history ∧
        ∀ op ∈ ops, ∀ keys ks, op.arg = .getAllKeys keys → op.ret = Ret.keys ks →
          ∃ new, ks = keys ++ new ∧ new.Pairwise fun a b => compare a b = .lt := by
  have hrun : Runs.exec (State.step (program Nat Nat)) (.init ∅)
      ([.call (.getAllKeys [5]), .turn 0 0, .call (.insert 3 30)] ++
        List.replicate 5 (.turn 1 0) ++ List.replicate 5 (.turn 0 0)) = some _ := rfl
  have hreach := Runs.Reach.init.of_exec hrun
  exact ⟨_, hreach, rfl, one_after_the_other hreach⟩

end MapTS
end RocketmqProxy
