import Mathlib

/-!
# Steps of others inside a body

A body is a deterministic program over a state `σ` and a point `κ` of the program.  Another
thread acts on the state while the body is on its way.  Where its action commutes with the
steps of the body, what the body has done so far, or has yet to do, is the same as if the
action had come before it.
-/

namespace Movers

open Relation

variable {σ κ : Type*} (step : σ × κ → σ × κ)

/-- The body gets from the one to the other. -/
abbrev Goes : σ × κ → σ × κ → Prop := ReflTransGen fun x y => step x = y

/-- The action `f` and the step from the point `k` may change places. -/
def Commutes (f : σ → σ) (k : κ) : Prop :=
  ∀ s, step (f s, k) = (f (step (s, k)).1, (step (s, k)).2)

variable {step} {p q r : σ × κ} {s : σ} {k : κ} {f : σ → σ} {C : κ → Prop}

/-- The body goes one way. -/
theorem goes_on (h : Goes step p q) (hne : p ≠ q) : Goes step (step p) q := by
  rcases ReflTransGen.cases_head h with rfl | ⟨p', rfl, h'⟩
  · exact absurd rfl hne
  · exact h'

/-- A point where the body stays comes after every other point. -/
theorem goes_to_end (h : Goes step p r) (hq : Goes step p q) (hstay : step q = q) :
    Goes step r q := by
  induction h with
  | refl => exact hq
  | @tail r r' _ hr ih =>
    by_cases heq : r = q
    · rw [← hr, heq, hstay]
    · exact hr ▸ goes_on ih heq

theorem eq_of_stay (h : Goes step q r) (hstay : step q = q) : r = q := by
  induction h with
  | refl => rfl
  | tail _ hr ih => rw [← hr, ih, hstay]

/-- The action comes when the body has gone a way on which the action commutes. -/
theorem goes_before (h : Goes step (s, k) q)
    (hback : ∀ s k, C (step (s, k)).2 → C k ∧ Commutes step f k) (hq : C q.2) :
    Goes step (f s, k) (f q.1, q.2) := by
  induction h with
  | refl => exact .refl
  | @tail r q _ hr ih =>
    subst hr
    obtain ⟨hk, hcomm⟩ := hback r.1 r.2 hq
    exact (ih hk).tail (hcomm r.1)

/-- The action comes when the body has yet to go a way on which the action commutes. -/
theorem goes_after (h : Goes step (s, k) q) (hk : C k)
    (hnext : ∀ s k, C k → C (step (s, k)).2 ∧ Commutes step f k) :
    Goes step (f s, k) (f q.1, q.2) := by
  have hall : Goes step (f s, k) (f q.1, q.2) ∧ C q.2 := by
    induction h with
    | refl => exact ⟨.refl, hk⟩
    | @tail r q _ hr ih =>
      subst hr
      obtain ⟨hC, hcomm⟩ := hnext r.1 r.2 ih.2
      exact ⟨ih.1.tail (hcomm r.1), hC⟩
  exact hall.1

end Movers
