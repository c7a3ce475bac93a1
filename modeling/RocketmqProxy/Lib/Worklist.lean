import Mathlib

/-!
# A loop that empties a queue

The loop takes the item in front off the queue and handles it.  An item that is not done
with goes back behind the others, into the same queue, so the loop ends only when it is
done with every item.
-/

namespace Worklist

variable {σ α : Type}

/-- The loop runs from `s` to `s'`, where the queue is empty, and takes the listed items. -/
inductive Drains (queue : σ → List α) (turn : σ → σ → Prop) : σ → List α → σ → Prop
  | done {s : σ} (hq : queue s = []) : Drains queue turn s [] s
  | next {s s₁ s' : σ} {a : α} {rest as : List α} (hq : queue s = a :: rest) (ht : turn s s₁)
      (hd : Drains queue turn s₁ as s') : Drains queue turn s (a :: as) s'

/-- In states of `I`, a turn of the loop is done with the item in front exactly if the item
settles, which then no other turn changes, and puts it back behind otherwise. -/
structure Loop (queue : σ → List α) (turn : σ → σ → Prop) (I : σ → Prop)
    (settles : σ → α → Prop) : Prop where
  keeps : ∀ {s s₁}, I s → turn s s₁ → I s₁
  front : ∀ {s s₁ a rest}, I s → turn s s₁ → queue s = a :: rest →
    queue s₁ = rest ∨ queue s₁ = rest ++ [a]
  settled : ∀ {s s₁ a rest}, I s → turn s s₁ → queue s = a :: rest → queue s₁ = rest →
    settles s a
  settling : ∀ {s a rest}, I s → queue s = a :: rest → settles s a →
    ∃ s₁, turn s s₁ ∧ queue s₁ = rest
  stable : ∀ {s s₁ a rest}, I s → turn s s₁ → queue s = a :: rest → queue s₁ = rest →
    ∀ b ∈ rest, settles s₁ b ↔ settles s b

section Drains

variable {queue : σ → List α} {turn : σ → σ → Prop} {I : σ → Prop} {settles : σ → α → Prop}
  {s s' : σ} {as : List α}

theorem Drains.empty (h : Drains queue turn s as s') : queue s' = [] := by
  induction h with
  | done hq => exact hq
  | next _ _ _ ih => exact ih

/-- A loop whose turns always leave something in the queue does not end. -/
theorem Drains.elim {K : σ → Prop} (h : Drains queue turn s as s')
    (hne : ∀ {s}, K s → queue s ≠ [])
    (hkeep : ∀ {s s₁ a rest}, K s → queue s = a :: rest → turn s s₁ → K s₁) (hk : K s) : False := by
  induction h with
  | done hq => exact hne hk hq
  | next hq ht _ ih => exact ih (hkeep hk hq ht)

/-- A loop that ends has come to every item of the queue. -/
theorem Drains.mem (h : Drains queue turn s as s') (hl : Loop queue turn I settles) (hi : I s) :
    ∀ a ∈ queue s, a ∈ as := by
  induction h with
  | done hq => simp [hq]
  | next hq ht _ ih =>
    rw [hq]
    intro b hb
    rcases List.mem_cons.mp hb with rfl | hb
    · exact List.mem_cons_self
    · refine List.mem_cons_of_mem _ (ih (hl.keeps hi ht) b ?_)
      rcases hl.front hi ht hq with hq₁ | hq₁ <;> rw [hq₁]
      · exact hb
      · exact List.mem_append_left _ hb

theorem Drains.all_settle (h : Drains queue turn s as s') (hl : Loop queue turn I settles)
    (hi : I s) (hn : (queue s).Nodup) (hp : as.Perm (queue s)) : ∀ a ∈ queue s, settles s a := by
  induction h with
  | done hq => simp [hq]
  | @next s s₁ s' a rest as hq ht hd ih =>
    rw [hq] at hn hp ⊢
    have hrest := (List.perm_cons a).mp hp
    obtain ⟨hnot, hn⟩ := List.nodup_cons.mp hn
    rcases hl.front hi ht hq with hq₁ | hq₁
    · have hall := ih (hl.keeps hi ht) (by rwa [hq₁]) (by rwa [hq₁])
      rw [hq₁] at hall
      intro b hb
      rcases List.mem_cons.mp hb with rfl | hb
      · exact hl.settled hi ht hq hq₁
      · exact (hl.stable hi ht hq hq₁ b hb).mp (hall b hb)
    · -- the item is back in the queue, and has to be taken again
      have hback : a ∈ queue s₁ := hq₁ ▸ List.mem_append_right _ List.mem_cons_self
      exact absurd (hrest.mem_iff.mp (hd.mem hl (hl.keeps hi ht) a hback)) hnot

/-- If every item settles the loop takes each in turn, and ends.  What a turn leaves of its
item is left when the loop ends. -/
theorem Loop.drains (hl : Loop queue turn I settles) (gone : σ → α → Prop)
    (hgone : ∀ {s s₁ a rest}, I s → turn s s₁ → queue s = a :: rest → queue s₁ = rest →
      gone s₁ a ∧ ∀ b, gone s b → gone s₁ b)
    (hi : I s) (hall : ∀ a ∈ queue s, settles s a) :
    ∃ s', Drains queue turn s (queue s) s' ∧ (∀ a ∈ queue s, gone s' a) ∧
      ∀ a, gone s a → gone s' a := by
  induction hq : queue s generalizing s with
  | nil => exact ⟨s, .done hq, by simp, fun _ h => h⟩
  | cons a rest ih =>
    obtain ⟨s₁, ht, hq₁⟩ := hl.settling hi hq (hall a (hq ▸ List.mem_cons_self))
    obtain ⟨ha, hkeep⟩ := hgone hi ht hq hq₁
    have hall₁ : ∀ b ∈ queue s₁, settles s₁ b := fun b hb =>
      (hl.stable hi ht hq hq₁ b (hq₁ ▸ hb)).mpr
        (hall b (hq ▸ List.mem_cons_of_mem a (hq₁ ▸ hb)))
    obtain ⟨s', hd, hrest, hkeep'⟩ := ih (hl.keeps hi ht) hall₁ hq₁
    refine ⟨s', .next hq ht hd, fun b hb => ?_, fun b hb => hkeep' b (hkeep b hb)⟩
    rcases List.mem_cons.mp hb with rfl | hb
    · exact hkeep' b ha
    · exact hrest b hb

end Drains

end Worklist
