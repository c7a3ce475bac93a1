import RocketmqProxy.Lib.Runs

/-!
# Runs with a record

A step may show something of itself.  `Record.step` keeps what the steps so far have shown
beside the state.
-/

namespace Record

open Runs

variable {σ ε α : Type*}

/-- A step of the system `f`, with what it shows added to the record. -/
def step (shows : σ → ε → List α) (f : σ → ε → Option σ) (p : σ × List α) (e : ε) :
    Option (σ × List α) :=
  (f p.1 e).map fun s => (s, p.2 ++ shows p.1 e)

variable {shows : σ → ε → List α} {f : σ → ε → Option σ} {p q : σ × List α} {e : ε}

theorem step_eq_some :
    step shows f p e = some q ↔ f p.1 e = some q.1 ∧ q.2 = p.2 ++ shows p.1 e := by
  rw [step, Option.map_eq_some_iff]
  constructor
  · rintro ⟨s, hs, rfl⟩
    exact ⟨hs, rfl⟩
  · rintro ⟨hs, hr⟩
    exact ⟨q.1, hs, by rw [← hr]⟩

/-- A relation between the state and the record that holds at the start and is kept by
every step holds at the end of every run. -/
theorem invariant {P : σ × List α → ε → Prop} {I : σ → List α → Prop} (hinit : I p.1 p.2)
    (hstep : ∀ s as e s', I s as → P (s, as) e → f s e = some s' → I s' (as ++ shows s e))
    (h : Reach (step shows f) p P q) : I q.1 q.2 := by
  refine h.invariant (I := fun r => I r.1 r.2) hinit fun r e r' _ hi hP hs => ?_
  obtain ⟨hf, hr⟩ := step_eq_some.mp hs
  rw [hr]
  exact hstep r.1 r.2 e r'.1 hi hP hf

end Record
