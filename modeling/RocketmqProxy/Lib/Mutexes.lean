import Mathlib

/-!
# Families of mutexes, and waiting

A system with a mutex at every index, each thread of which holds one of them at most: who
owns which is said once by the mutexes and once by the program counters of the threads.
Threads that wait for one another are in no cycle where each waits for one of a lower rank.
-/

namespace Mutexes

variable {ι τ : Type*} {owner : ι → Option τ} {held : τ → Option ι} {i : ι} {t : τ}

/-- A mutex is owned by the thread that its program counter takes to hold it. -/
def Owned (owner : ι → Option τ) (held : τ → Option ι) : Prop :=
  ∀ i t, owner i = some t ↔ held t = some i

/-- What a step of `t` at the mutex `i` does to the owner of `i` and to what `t` holds. -/
inductive Turn (i : ι) (t : τ) : Option τ → Option ι → Option τ → Option ι → Prop
  | keep (o : Option τ) (h : Option ι) : Turn i t o h o h
  | lock : Turn i t none none (some t) (some i)
  | unlock (o : Option τ) : Turn i t o (some i) none none

section Steps

variable [DecidableEq ι] [DecidableEq τ]

/-- A thread that holds no mutex locks a free one. -/
theorem Owned.lock (h : Owned owner held) (hi : owner i = none) (ht : held t = none) :
    Owned (Function.update owner i (some t)) (Function.update held t (some i)) := by
  intro i' t'
  by_cases hii : i' = i
  · subst hii
    by_cases htt : t' = t
    · simp [htt]
    · have hnot : held t' ≠ some i' := fun hc => by
        rw [(h i' t').mpr hc] at hi
        cases hi
      simp [htt, hnot, Ne.symm htt]
  · by_cases htt : t' = t
    · subst htt
      have hnot : owner i' ≠ some t' := fun hc => by
        rw [(h i' t').mp hc] at ht
        cases ht
      simp [hii, hnot, Ne.symm hii]
    · simpa [hii, htt] using h i' t'

/-- The owner of a mutex unlocks it. -/
theorem Owned.unlock (h : Owned owner held) (ht : held t = some i) :
    Owned (Function.update owner i none) (Function.update held t none) := by
  intro i' t'
  have hi : owner i = some t := (h i t).mpr ht
  by_cases hii : i' = i
  · subst hii
    by_cases htt : t' = t
    · simp [htt]
    · have hnot : held t' ≠ some i' := fun hc =>
        htt (Option.some.inj (((h i' t').mpr hc).symm.trans hi))
      simp [htt, hnot]
  · by_cases htt : t' = t
    · subst htt
      have hnot : owner i' ≠ some t' := fun hc =>
        hii (Option.some.inj (((h i' t').mp hc).symm.trans ht))
      simp [hii, hnot]
    · simpa [hii, htt] using h i' t'

theorem Owned.turn (h : Owned owner held) {o : Option τ} {m : Option ι}
    (ht : Turn i t (owner i) (held t) o m) :
    Owned (Function.update owner i o) (Function.update held t m) := by
  generalize hi : owner i = o₀, hm : held t = m₀ at ht
  cases ht with
  | keep => rwa [Function.update_eq_self_iff.mpr hi.symm, Function.update_eq_self_iff.mpr hm.symm]
  | lock => exact h.lock hi hm
  | unlock => exact h.unlock hm

end Steps

/-- Threads that wait for threads of a lower rank only are in no cycle. -/
theorem no_cycle {waits : τ → τ → Prop} {rank : τ → Nat}
    (h : ∀ t t', waits t t' → rank t' < rank t) (t : τ) : ¬ Relation.TransGen waits t t := by
  have hlt {t t' : τ} (hc : Relation.TransGen waits t t') : rank t' < rank t := by
    induction hc with
    | single hw => exact h _ _ hw
    | tail _ hw ih => exact (h _ _ hw).trans ih
  exact fun hc => lt_irrefl _ (hlt hc)

end Mutexes
