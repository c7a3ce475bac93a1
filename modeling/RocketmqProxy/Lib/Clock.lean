import RocketmqProxy.Lib.Runs

/-!
# Runs with a clock

A step may read a clock, several times in a row.  `Clock.step` keeps the last reading
beside the state and refuses a step whose readings go back, so a run of it is a run of the
system in which the clock never does.
-/

namespace Clock

open Runs

variable {σ ε τ : Type*} [LinearOrder τ]

/-- A step of the system `f` whose readings begin at the last one so far and do not go
back. -/
def step (readings : σ → ε → List τ) (f : σ → ε → Option σ) (p : σ × τ) (e : ε) :
    Option (σ × τ) :=
  if (p.2 :: readings p.1 e).Pairwise (· ≤ ·) then
    (f p.1 e).map fun s => (s, (readings p.1 e).getLastD p.2)
  else none

variable {readings : σ → ε → List τ} {f : σ → ε → Option σ} {p q : σ × τ} {e : ε}

theorem step_eq_some : step readings f p e = some q ↔
    (p.2 :: readings p.1 e).Pairwise (· ≤ ·) ∧ f p.1 e = some q.1 ∧
      (readings p.1 e).getLastD p.2 = q.2 := by
  rw [step, Option.ite_none_right_eq_some, Option.map_eq_some_iff]
  refine and_congr_right fun _ => ⟨?_, ?_⟩
  · rintro ⟨s, hs, rfl⟩
    exact ⟨hs, rfl⟩
  · rintro ⟨hs, ht⟩
    exact ⟨q.1, hs, by rw [ht]⟩

theorem le_getLastD {t r : τ} {rs : List τ} (h : (t :: rs).Pairwise (· ≤ ·))
    (hr : r ∈ t :: rs) : r ≤ rs.getLastD t := by
  induction rs generalizing t r with
  | nil =>
    obtain rfl := List.mem_singleton.mp hr
    exact le_refl r
  | cons u rs ih =>
    obtain ⟨hle, htail⟩ := List.pairwise_cons.mp h
    rw [List.getLastD_cons]
    rcases List.mem_cons.mp hr with rfl | hr
    · exact (hle u List.mem_cons_self).trans (ih htail List.mem_cons_self)
    · exact ih htail hr

/-- The clock does not go back in a step, and each reading lies between its ends. -/
theorem step_le (h : step readings f p e = some q) :
    p.2 ≤ q.2 ∧ ∀ r ∈ readings p.1 e, p.2 ≤ r ∧ r ≤ q.2 := by
  obtain ⟨hle, -, ht⟩ := step_eq_some.mp h
  rw [← ht]
  refine ⟨le_getLastD hle List.mem_cons_self, fun r hr => ?_⟩
  exact ⟨List.rel_of_pairwise_cons hle hr, le_getLastD hle (List.mem_cons_of_mem _ hr)⟩

/-- A run with a clock is a run. -/
theorem reach_fst {P : σ × τ → ε → Prop} (h : Reach (step readings f) p P q) :
    Reach f p.1 always q.1 := by
  induction h with
  | init => exact .init
  | step _ _ hs ih => exact .step ih trivial (step_eq_some.mp hs).2.1

/-- A step that reads the one time `t`, or none. -/
theorem step_of_forall {s s' : σ} {t₀ t : τ} (hs : f s e = some s') (ht : t₀ ≤ t)
    (hr : ∀ r ∈ readings s e, r = t) :
    ∃ t', t' ≤ t ∧ step readings f (s, t₀) e = some (s', t') := by
  have hsame : (readings s e).Pairwise (· ≤ ·) :=
    List.pairwise_of_forall_mem_list fun a ha b hb => by rw [hr a ha, hr b hb]
  have hsorted : (t₀ :: readings s e).Pairwise (· ≤ ·) :=
    List.pairwise_cons.mpr ⟨fun r hmem => (hr r hmem).symm ▸ ht, hsame⟩
  refine ⟨(readings s e).getLastD t₀, ?_, step_eq_some.mpr ⟨hsorted, hs, rfl⟩⟩
  rw [List.getLastD_eq_getLast?]
  cases hl : (readings s e).getLast? with
  | none => exact ht
  | some r => exact (hr r (List.mem_of_getLast? hl)).le

/-- A run in which every reading is `t` is one of the clock, from any earlier time. -/
theorem reach_of_forall {P : σ → ε → Prop} {s s' : σ} {t₀ t : τ} (h : Reach f s P s')
    (ht : t₀ ≤ t) (hr : ∀ s e, P s e → ∀ r ∈ readings s e, r = t) :
    ∃ t', t' ≤ t ∧ Reach (step readings f) (s, t₀) always (s', t') := by
  induction h with
  | init => exact ⟨t₀, ht, .init⟩
  | step _ hP hs ih =>
    obtain ⟨t₁, ht₁, hrun⟩ := ih
    obtain ⟨t₂, ht₂, hs'⟩ := step_of_forall hs ht₁ (hr _ _ hP)
    exact ⟨t₂, ht₂, .step hrun trivial hs'⟩

end Clock
