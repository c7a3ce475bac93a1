import Mathlib

/-!
# Append-only histories

A history grows at its end.  An entry of `h ++ [o]` is either the new one or an
entry of `h` with the same past, and a view of it grows by what it shows of `o`.
-/

namespace History

variable {α β : Type*}

/-- What a view of the history makes of a new entry. -/
theorem filterMap_concat (f : α → Option β) (h : List α) (o : α) :
    (h ++ [o]).filterMap f = h.filterMap f ++ (f o).toList := by
  rw [List.filterMap_append, List.filterMap_cons, List.filterMap_nil]
  cases f o <;> rfl

/-- An entry that a view does not show. -/
theorem filterMap_concat_none {f : α → Option β} {o : α} (ho : f o = none) (h : List α) :
    (h ++ [o]).filterMap f = h.filterMap f := by
  rw [filterMap_concat, ho, Option.toList_none, List.append_nil]

theorem concat_eq_append_cons {h h₁ h₂ : List α} {o x : α}
    (he : h ++ [o] = h₁ ++ x :: h₂) :
    (∃ h₂', h₂ = h₂' ++ [o] ∧ h = h₁ ++ x :: h₂') ∨ (h₂ = [] ∧ h₁ = h ∧ x = o) := by
  rcases List.eq_nil_or_concat h₂ with rfl | ⟨h₂', o', rfl⟩
  · obtain ⟨rfl, ho⟩ := List.append_inj' he rfl
    exact .inr ⟨rfl, rfl, (List.cons.inj ho).1.symm⟩
  · have he' : h ++ [o] = (h₁ ++ x :: h₂') ++ [o'] := by simpa using he
    obtain ⟨rfl, ho⟩ := List.append_inj' he' rfl
    exact .inl ⟨h₂', by rw [(List.cons.inj ho).1, List.concat_eq_append], rfl⟩

/-- The last entry of a kind is where it is. -/
theorem last_unique {P : α → Prop} {h₁ h₂ k₁ k₂ : List α} {x y : α} (hx : P x) (hy : P y)
    (hh : ∀ o ∈ h₂, ¬ P o) (hk : ∀ o ∈ k₂, ¬ P o) (he : h₁ ++ x :: h₂ = k₁ ++ y :: k₂) :
    x = y ∧ h₂ = k₂ := by
  rcases List.append_eq_append_iff.mp he with ⟨b, -, hb⟩ | ⟨b, -, hb⟩
  · cases b with
    | nil => exact List.cons.inj hb
    | cons z b =>
      obtain ⟨-, rfl⟩ := List.cons.inj hb
      exact absurd hy (hh y (List.mem_append_right b List.mem_cons_self))
  · cases b with
    | nil =>
      obtain ⟨rfl, rfl⟩ := List.cons.inj hb
      exact ⟨rfl, rfl⟩
    | cons z b =>
      obtain ⟨-, rfl⟩ := List.cons.inj hb
      exact absurd hx (hk x (List.mem_append_right b List.mem_cons_self))

end History
