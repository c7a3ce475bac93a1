import Mathlib

/-!
# Runs of a partial step function

A system is a function `step : σ → ε → Option σ`: the events of `ε` carry every
choice the environment makes, and an event that the state does not admit has no
successor.  `Reach step init P` collects the states reached from `init` by steps
that all meet the condition `P`, so a statement about every run is a statement
about `Reach` with the condition that always holds, and a statement about the
runs of a well-behaved environment names its condition.
-/

namespace Runs

variable {σ ε : Type*}

/-- The events of a list taken one after the other. -/
def exec (step : σ → ε → Option σ) : σ → List ε → Option σ
  | s, [] => some s
  | s, e :: es => (step s e).bind fun s' => exec step s' es

/-- States reached from `init` by steps that all meet `P`. -/
inductive Reach (step : σ → ε → Option σ) (init : σ) (P : σ → ε → Prop) : σ → Prop
  | init : Reach step init P init
  | step {s s' : σ} {e : ε} :
      Reach step init P s → P s e → step s e = some s' → Reach step init P s'

/-- The condition met by every step. -/
def always : σ → ε → Prop := fun _ _ => True

/-- The step function that refuses the events not meeting `P`. -/
def restrict (step : σ → ε → Option σ) (P : σ → ε → Prop) [∀ s e, Decidable (P s e)]
    (s : σ) (e : ε) : Option σ :=
  if P s e then step s e else none

variable {step : σ → ε → Option σ} {init : σ} {P Q : σ → ε → Prop}

theorem exec_append (s : σ) (es fs : List ε) :
    exec step s (es ++ fs) = (exec step s es).bind fun s' => exec step s' fs := by
  induction es generalizing s with
  | nil => rfl
  | cons e es ih =>
    simp only [List.cons_append, exec, Option.bind_assoc]
    exact congrArg _ (funext ih)

/-- A run with a first and a last event of its own. -/
theorem exec_between {s s' : σ} {e e' : ε} {es : List ε}
    (h : exec step s (e :: (es ++ [e'])) = some s') :
    ∃ s₁ s₂, step s e = some s₁ ∧ exec step s₁ es = some s₂ ∧ step s₂ e' = some s' := by
  obtain ⟨s₁, hs₁, h⟩ := Option.bind_eq_some_iff.mp h
  rw [exec_append] at h
  obtain ⟨s₂, hs₂, h⟩ := Option.bind_eq_some_iff.mp h
  obtain ⟨s₃, hs₃, h⟩ := Option.bind_eq_some_iff.mp h
  obtain rfl : s₃ = s' := Option.some.inj h
  exact ⟨s₁, s₂, hs₁, hs₂, hs₃⟩

/-- A state predicate that the events of a list keep. -/
theorem exec_invariant {I : σ → Prop} {Q : ε → Prop}
    (hstep : ∀ s e s', I s → Q e → step s e = some s' → I s') {s s' : σ} {es : List ε}
    (hes : ∀ e ∈ es, Q e) (hs : I s) (h : exec step s es = some s') : I s' := by
  induction es generalizing s with
  | nil =>
    obtain rfl : s = s' := by simpa [exec] using h
    exact hs
  | cons e es ih =>
    obtain ⟨s₁, hs₁, h⟩ := Option.bind_eq_some_iff.mp h
    obtain ⟨he, hes⟩ := List.forall_mem_cons.mp hes
    exact ih hes (hstep _ _ _ hs he hs₁) h

namespace Reach

theorem mono (hPQ : ∀ s e, P s e → Q s e) {s : σ} (h : Reach step init P s) :
    Reach step init Q s := by
  induction h with
  | init => exact .init
  | step _ hP hs ih => exact .step ih (hPQ _ _ hP) hs

/-- Runs compose. -/
theorem trans {s s' : σ} (h : Reach step init P s) (h' : Reach step s P s') :
    Reach step init P s' := by
  induction h' with
  | init => exact h
  | step _ hP hs ih => exact .step ih hP hs

/-- A state predicate that holds initially and is kept by every step meeting `P`
holds of every state reached by such steps.  The step may use that its source is
reached, so invariants can be proved one on top of the other. -/
theorem invariant {I : σ → Prop} (hinit : I init)
    (hstep : ∀ s e s', Reach step init P s → I s → P s e → step s e = some s' → I s')
    {s : σ} (h : Reach step init P s) : I s := by
  induction h with
  | init => exact hinit
  | step hr hP hs ih => exact hstep _ _ _ hr ih hP hs

/-- The steps of a run may be asked to start in states with the invariant it keeps. -/
theorem strengthen {I : σ → Prop} (hinit : I init)
    (hstep : ∀ s e s', I s → P s e → step s e = some s' → I s') {s : σ}
    (h : Reach step init P s) : Reach step init (fun s e => I s ∧ P s e) s ∧ I s := by
  induction h with
  | init => exact ⟨.init, hinit⟩
  | step _ hP hs ih => exact ⟨.step ih.1 ⟨ih.2, hP⟩ hs, hstep _ _ _ ih.2 hP hs⟩

/-- A run of the restricted step function is a run whose steps meet the
condition. -/
theorem of_exec_restrict [∀ s e, Decidable (P s e)] {es : List ε} {s s' : σ}
    (hr : Reach step init P s) (h : exec (restrict step P) s es = some s') :
    Reach step init P s' := by
  induction es generalizing s with
  | nil =>
    obtain rfl : s = s' := by simpa [exec] using h
    exact hr
  | cons e es ih =>
    obtain ⟨s₁, hs₁, h⟩ := Option.bind_eq_some_iff.mp h
    by_cases hP : P s e
    · rw [restrict, if_pos hP] at hs₁
      exact ih (.step hr hP hs₁) h
    · rw [restrict, if_neg hP] at hs₁
      exact absurd hs₁ (by simp)

/-- A run of events that meet the condition whatever the state. -/
theorem of_exec_of_forall {es : List ε} {s s' : σ} (hP : ∀ e ∈ es, ∀ s, P s e)
    (hr : Reach step init P s) (h : exec step s es = some s') : Reach step init P s' := by
  induction es generalizing s with
  | nil =>
    obtain rfl : s = s' := by simpa [exec] using h
    exact hr
  | cons e es ih =>
    obtain ⟨s₁, hs₁, h⟩ := Option.bind_eq_some_iff.mp h
    obtain ⟨he, hes⟩ := List.forall_mem_cons.mp hP
    exact ih hes (.step hr (he s) hs₁) h

theorem of_exec {es : List ε} {s s' : σ} (hr : Reach step init always s)
    (h : exec step s es = some s') : Reach step init always s' :=
  of_exec_of_forall (fun _ _ _ => trivial) hr h

end Reach

end Runs
