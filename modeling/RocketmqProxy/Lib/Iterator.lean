import Mathlib

/-!
# Iterators of ordered maps

An iterator of an ordered map stands at a key.  `first` and `next` look at the map as it
is when they are called.  A loop from `first` by `next` meets the keys in order and leaves
none out, which is what `not_before_first`, `before_next` and `le_of_next_none` say.
-/

namespace Iterator

open Std

variable {κ α : Type*} [Ord κ] [TransOrd κ] [LawfulEqOrd κ] {m : TreeMap κ α} {k : κ}
  {p : κ × α}

/-- `begin()`, or `none` for `end()`. -/
def first (m : TreeMap κ α) : Option (κ × α) := m.toList.head?

/-- The entry after the one at `k`, or `none` for `end()`. -/
def next (m : TreeMap κ α) (k : κ) : Option (κ × α) :=
  m.toList.find? fun p => (compare k p.1).isLT

theorem getElem?_of_first (h : first m = some p) : m[p.1]? = some p.2 :=
  TreeMap.mem_toList_iff_getElem?_eq_some.mp (List.mem_of_mem_head? h)

theorem getElem?_of_next (h : next m k = some p) : m[p.1]? = some p.2 :=
  TreeMap.mem_toList_iff_getElem?_eq_some.mp (List.mem_of_find?_eq_some h)

/-! ## Nothing is left out -/

theorem exists_mem_toList {q : κ} (hq : q ∈ m) : ∃ v, (q, v) ∈ m.toList :=
  ⟨m[q], TreeMap.mem_toList_iff_getElem?_eq_some.mpr (TreeMap.getElem?_eq_some_getElem hq)⟩

theorem not_before_first {q : κ} (h : first m = some p) (hq : q ∈ m) :
    compare q p.1 ≠ .lt := by
  intro hlt
  obtain ⟨v, hv⟩ := exists_mem_toList hq
  obtain ⟨rest, hl⟩ := List.head?_eq_some_iff.mp h
  have hsorted := TreeMap.ordered_keys_toList (t := m)
  rw [hl] at hv hsorted
  rcases List.mem_cons.mp hv with rfl | hv
  · exact absurd hlt (by simp)
  · have hgt := (List.pairwise_cons.mp hsorted).1 _ hv
    rw [OrientedOrd.eq_swap, hgt] at hlt
    cases hlt

theorem le_of_not_isLT {q : κ} (h : ¬ (compare k q).isLT = true) :
    compare q k = .lt ∨ q = k := by
  cases hc : compare q k with
  | lt => exact .inl rfl
  | eq => exact .inr (compare_eq_iff_eq.mp hc)
  | gt =>
    rw [OrientedOrd.eq_swap, hc] at h
    exact absurd rfl h

/-- What comes before the next key was passed, or is the key the iterator stood at. -/
theorem before_next {q : κ} (h : next m k = some p) (hq : q ∈ m)
    (hlt : compare q p.1 = .lt) : compare q k = .lt ∨ q = k := by
  obtain ⟨v, hv⟩ := exists_mem_toList hq
  obtain ⟨-, passed, rest, hl, hpassed⟩ := List.find?_eq_some_iff_append.mp h
  have hsorted := TreeMap.ordered_keys_toList (t := m)
  rw [hl] at hv hsorted
  rcases List.mem_append.mp hv with hv | hv
  · have hnot := hpassed _ hv
    exact le_of_not_isLT fun hk => by simp [hk] at hnot
  · exfalso
    rcases List.mem_cons.mp hv with rfl | hv
    · simp at hlt
    · have hgt := (List.pairwise_cons.mp (List.pairwise_append.mp hsorted).2.1).1 _ hv
      rw [OrientedOrd.eq_swap, hgt] at hlt
      cases hlt

theorem le_of_next_none {q : κ} (h : next m k = none) (hq : q ∈ m) :
    compare q k = .lt ∨ q = k := by
  obtain ⟨v, hv⟩ := exists_mem_toList hq
  exact le_of_not_isLT (List.find?_eq_none.mp h _ hv)

/-! ## The order of a loop -/

omit [TransOrd κ] [LawfulEqOrd κ] in
/-- The first key in the list of the keys. -/
theorem first_key (m : TreeMap κ α) : (first m).map Prod.fst = m.keys.head? := by
  rw [first, ← List.head?_map, TreeMap.map_fst_toList_eq_keys]

/-- The key after the one at `k` in the list of the keys. -/
theorem next_key {pre rest : List κ} (h : m.keys = pre ++ k :: rest) :
    (next m k).map Prod.fst = rest.head? := by
  have hsorted := TreeMap.ordered_keys (t := m)
  rw [h] at hsorted
  obtain ⟨-, hrest, hpre⟩ := List.pairwise_append.mp hsorted
  have hfind : (next m k).map Prod.fst = m.keys.find? fun k' => (compare k k').isLT := by
    rw [next, ← TreeMap.map_fst_toList_eq_keys, List.find?_map]
    rfl
  have hpassed : ∀ q ∈ pre, ¬ (compare k q).isLT = true := by
    intro q hq
    rw [OrientedOrd.eq_swap, hpre q hq k List.mem_cons_self]
    exact Bool.false_ne_true
  rw [hfind, h, List.find?_append, List.find?_eq_none.mpr hpassed, Option.none_or,
    List.find?_cons_of_neg (by simp)]
  cases rest with
  | nil => rfl
  | cons q rest =>
    rw [List.find?_cons_of_pos]
    · rfl
    · rw [(List.pairwise_cons.mp hrest).1 q List.mem_cons_self]
      rfl

/-- What is done at the next key, if there is one. -/
theorem next_elim {γ : Type*} {pre rest : List κ} (h : m.keys = pre ++ k :: rest) (d : γ)
    (f : κ → γ) : ((next m k).elim d fun p => f p.1) = rest.head?.elim d f := by
  rw [← next_key h]
  cases next m k <;> rfl

omit [TransOrd κ] [LawfulEqOrd κ] in
/-- What is done at the first key, if there is one. -/
theorem first_elim {γ : Type*} (m : TreeMap κ α) (d : γ) (f : κ → γ) :
    ((first m).elim d fun p => f p.1) = m.keys.head?.elim d f := by
  rw [← first_key]
  cases first m <;> rfl

/-- An assignment to a key that is there moves no iterator. -/
theorem keys_insert {k : κ} (h : k ∈ m) (v : α) : (m.insert k v).keys = m.keys := by
  have hirrefl : Std.Irrefl fun a b : κ => compare a b = .lt := ⟨fun a ha => by simp at ha⟩
  have hasymm : Std.Asymm fun a b : κ => compare a b = .lt := ⟨fun a b hab hba => by
    rw [OrientedOrd.eq_swap, hba] at hab
    cases hab⟩
  refine TreeMap.ordered_keys.eq_of_mem_iff TreeMap.ordered_keys fun a => ?_
  rw [TreeMap.mem_keys, TreeMap.mem_keys, TreeMap.mem_insert]
  constructor
  · rintro (ha | ha)
    · rwa [← compare_eq_iff_eq.mp ha]
    · exact ha
  · exact .inr

end Iterator
