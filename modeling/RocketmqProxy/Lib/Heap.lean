import Mathlib

/-!
# Lists as heaps

A heap whose objects are never moved is a list, and a reference is a position in it.
-/

namespace Heap

variable {α β : Type*} {l : List α} {i j : Nat} {a b : α}

theorem modify_self (h : l[i]? = some a) (f : α → α) : (l.modify i f)[i]? = some (f a) := by
  rw [List.getElem?_modify_eq, h]
  rfl

theorem set_self (h : l[i]? = some a) (b : α) : (l.set i b)[i]? = some b :=
  List.getElem?_set_self (List.getElem?_eq_some_iff.mp h).1

theorem set_cases {b' : α} (hi : l[i]? = some a) (hj : l[j]? = some b) :
    (i = j ∧ a = b ∧ (l.set i b')[j]? = some b') ∨ (l.set i b')[j]? = some b := by
  by_cases hij : i = j
  · subst hij
    exact .inl ⟨rfl, Option.some.inj (hi.symm.trans hj), set_self hi b'⟩
  · exact .inr (by rwa [List.getElem?_set_ne hij])

theorem of_set {x : α} (h : (l.set i a)[j]? = some x) : (i = j ∧ x = a) ∨ l[j]? = some x := by
  by_cases hij : i = j
  · subst hij
    rw [List.getElem?_set_self (by simpa using (List.getElem?_eq_some_iff.mp h).1)] at h
    exact .inl ⟨rfl, (Option.some.inj h).symm⟩
  · exact .inr (by rwa [List.getElem?_set_ne hij] at h)

/-- A write after which the object is related to what it was. -/
theorem set_rel {R : α → α → Prop} (hi : l[i]? = some a) (hR : R a b) (hrefl : ∀ x, R x x)
    {x : α} (hj : l[j]? = some x) : ∃ y, (l.set i b)[j]? = some y ∧ R x y := by
  rcases set_cases hi hj with ⟨-, rfl, hset⟩ | hset
  · exact ⟨b, hset, hR⟩
  · exact ⟨x, hset, hrefl x⟩

/-- A write that a view of the objects does not see. -/
theorem map_set {f : α → β} (h : l[i]? = some a) (hf : f b = f a) :
    (l.set i b).map f = l.map f := by
  refine List.ext_getElem? fun j => ?_
  rw [List.getElem?_map, List.getElem?_map]
  by_cases hij : i = j
  · subst hij
    rw [set_self h, h, Option.map_some, Option.map_some, hf]
  · rw [List.getElem?_set_ne hij]

/-- A write to an object that then has more to say. -/
theorem flatMap_set_perm {f : α → List β} {x : List β} (h : l[i]? = some a)
    (hf : f b = f a ++ x) : ((l.set i b).flatMap f).Perm (l.flatMap f ++ x) := by
  obtain ⟨hlt, rfl⟩ := List.getElem?_eq_some_iff.mp h
  have hold : l = l.take i ++ l[i] :: l.drop (i + 1) := by simp
  rw [List.set_eq_take_append_cons_drop, if_pos hlt]
  conv_rhs => rw [hold]
  simp only [List.flatMap_append, List.flatMap_cons, hf, List.append_assoc]
  exact (List.perm_append_comm.append_left _).append_left _

theorem countP_set (h : l[i]? = some a) (b : α) (p : α → Bool) :
    (l.set i b).countP p + (p a).toNat = l.countP p + (p b).toNat := by
  obtain ⟨hlt, rfl⟩ := List.getElem?_eq_some_iff.mp h
  have hmem : p l[i] = true → 1 ≤ l.countP p := fun hp =>
    List.one_le_countP_iff.mpr ⟨l[i], List.getElem_mem hlt, hp⟩
  rw [List.countP_set hlt]
  cases hp : p l[i] with
  | false => cases p b <;> simp
  | true =>
    have hpos := hmem hp
    cases p b <;> simp <;> omega

theorem modify_eq_set (h : l[i]? = some a) (f : α → α) : l.modify i f = l.set i (f a) := by
  obtain ⟨hlt, rfl⟩ := List.getElem?_eq_some_iff.mp h
  exact List.modify_eq_set_get f hlt

theorem map_modify (f : α → β) (g : α → α) (hf : ∀ a, f (g a) = f a) (l : List α) (i : Nat) :
    (l.modify i g).map f = l.map f := by
  refine List.ext_getElem? fun j => ?_
  rw [List.getElem?_map, List.getElem?_map, List.getElem?_modify]
  cases l[j]? with
  | none => rfl
  | some a => by_cases hij : i = j <;> simp [hij, hf]

theorem append_old (h : l[i]? = some a) (l' : List α) : (l ++ l')[i]? = some a := by
  rwa [List.getElem?_append_left (List.getElem?_eq_some_iff.mp h).1]

theorem of_append {x : α} (h : (l ++ [a])[i]? = some x) :
    (i = l.length ∧ x = a) ∨ l[i]? = some x := by
  rcases Nat.lt_trichotomy i l.length with hlt | rfl | hgt
  · exact .inr (by rwa [List.getElem?_append_left hlt] at h)
  · rw [List.getElem?_concat_length] at h
    exact .inl ⟨rfl, (Option.some.inj h).symm⟩
  · rw [List.getElem?_eq_none (by simpa using hgt)] at h
    cases h

/-- A view that has nothing to see in a new object. -/
theorem bind_append {f : α → Option β} (hf : f a = none) (l : List α) (i : Nat) :
    (l ++ [a])[i]?.bind f = l[i]?.bind f := by
  rcases Nat.lt_trichotomy i l.length with hlt | rfl | hgt
  · rw [List.getElem?_append_left hlt]
  · simp [hf]
  · rw [List.getElem?_eq_none (by simpa using hgt), List.getElem?_eq_none hgt.le]

end Heap
