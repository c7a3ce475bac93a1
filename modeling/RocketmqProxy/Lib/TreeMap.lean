import Mathlib

/-!
# Loops over ordered maps

An ordered map of the C++ library is a `Std.TreeMap`.  A loop that walks one map
and assigns into others is a fold over the walked entries; the lemmas here say
what such a fold leaves at each key.
-/

namespace TreeMapLoop

open Std

theorem insertIfNew_of_not_mem {κ α : Type} [Ord κ] {m : TreeMap κ α} {k : κ} (h : k ∉ m) (v : α) :
    m.insertIfNew k v = m.insert k v := by
  have hc : m.contains k = false := by
    rw [← Bool.not_eq_true, TreeMap.contains_iff_mem]
    exact h
  have hc' : m.inner.inner.contains k = false := hc
  unfold TreeMap.insertIfNew TreeMap.insert DTreeMap.insertIfNew DTreeMap.insert
  congr 2
  unfold DTreeMap.Internal.Impl.insertIfNew
  simp [hc']

variable {κ α β : Type} [DecidableEq κ] [Ord κ] [TransOrd κ] [LawfulEqOrd κ]

/-- `std::map::insert` keeps the value a key already has. -/
theorem getElem?_insertIfNew (m : TreeMap κ α) (k a : κ) (v : α) :
    (m.insertIfNew k v)[a]? = if k = a then some (m[a]?.getD v) else m[a]? := by
  by_cases hk : k = a
  · subst hk
    cases h : m[k]? with
    | none =>
      have hmem : k ∉ m := by
        rw [TreeMap.mem_iff_isSome_getElem?, h]
        simp
      rw [TreeMap.getElem?_insertIfNew]
      simp [hmem]
    | some b =>
      have hmem : k ∈ m := by
        rw [TreeMap.mem_iff_isSome_getElem?, h]
        rfl
      rw [TreeMap.getElem?_insertIfNew, if_neg (by simp [hmem]), if_pos rfl, h]
      rfl
  · rw [TreeMap.getElem?_insertIfNew]
    simp [hk]

theorem getElem?_foldl_insert (l : List (κ × β)) (v : α) (m : TreeMap κ α) (k : κ) :
    (l.foldl (fun m p => m.insert p.1 v) m)[k]? =
      if k ∈ l.map Prod.fst then some v else m[k]? := by
  induction l generalizing m with
  | nil => simp
  | cons p l ih =>
    rw [List.foldl_cons, ih, TreeMap.getElem?_insert]
    by_cases hk : k ∈ l.map Prod.fst
    · simp [hk]
    · by_cases hp : p.1 = k
      · simp [hp]
      · simp [hk, hp, Ne.symm hp]

/-- Assigning one value at the keys of those entries of a list that pass a test. -/
theorem getElem?_foldl_insert_if (P : κ × β → Prop) [DecidablePred P] (l : List (κ × β)) (v : α)
    (m : TreeMap κ α) (k : κ) :
    (l.foldl (fun m p => if P p then m.insert p.1 v else m) m)[k]? =
      if ∃ p ∈ l, p.1 = k ∧ P p then some v else m[k]? := by
  induction l generalizing m with
  | nil => simp
  | cons p l ih =>
    rw [List.foldl_cons, ih]
    by_cases hex : ∃ q ∈ l, q.1 = k ∧ P q
    · rw [if_pos hex, if_pos (hex.imp fun q hq => ⟨List.mem_cons_of_mem p hq.1, hq.2⟩)]
    · rw [if_neg hex]
      simp only [List.mem_cons, exists_eq_or_imp, hex, or_false]
      by_cases hp : P p
      · simp only [hp, if_true, and_true]
        rw [TreeMap.getElem?_insert]
        simp only [Std.compare_eq_iff_eq]
      · simp only [hp, if_false, and_false]

end TreeMapLoop
