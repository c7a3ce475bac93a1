import Mathlib

/-!
# Shared mutexes

A lock that one thread holds exclusively or any number of threads hold shared.  The state
of the lock says who holds it, so two holders one of which is exclusive cannot be
represented.  A system is said to respect the lock if every thread that its program
counter takes to be inside holds it.
-/

inductive SharedMutex (τ : Type*)
  | shared (readers : List τ)
  | exclusive (writer : τ)
deriving DecidableEq, Repr

namespace SharedMutex

inductive Mode
  | shared
  | exclusive
deriving DecidableEq, Repr

variable {τ : Type*} {m m' : SharedMutex τ} {md md' : Mode} {t t' : τ}

/-- Held by nobody. -/
def free : SharedMutex τ := .shared []

/-- The lock after `t` has acquired it; `none` while `t` has to wait.  Whether a thread
that waits for exclusive access holds off new shared ones is left open. -/
def lock : SharedMutex τ → Mode → τ → Option (SharedMutex τ)
  | .shared readers, .shared, t => some (.shared (t :: readers))
  | .shared [], .exclusive, t => some (.exclusive t)
  | _, _, _ => none

def unlock [DecidableEq τ] : SharedMutex τ → Mode → τ → SharedMutex τ
  | .shared readers, .shared, t => .shared (readers.erase t)
  | .exclusive writer, .exclusive, t => if writer = t then free else .exclusive writer
  | m, _, _ => m

def Holds : SharedMutex τ → Mode → τ → Prop
  | .shared readers, .shared, t => t ∈ readers
  | .exclusive writer, .exclusive, t => writer = t
  | _, _, _ => False

theorem not_holds_free : ¬ (free : SharedMutex τ).Holds md t := by
  cases md <;> simp [free, Holds]

/-- No thread has acquired the lock twice. -/
def Once : SharedMutex τ → Prop
  | .shared readers => readers.Nodup
  | .exclusive _ => True

theorem lock_holds (h : m.lock md t = some m') :
    m'.Holds md' t' ↔ t' = t ∧ md' = md ∨ m.Holds md' t' := by
  unfold lock at h
  split at h
  · obtain rfl := Option.some.inj h
    cases md' <;> simp [Holds]
  · obtain rfl := Option.some.inj h
    cases md' <;> simp [Holds, eq_comm]
  · cases h

theorem lock_once (h : m.lock md t = some m') (hm : m.Once) (ht : ¬ m.Holds md t) : m'.Once := by
  unfold lock at h
  split at h
  · obtain rfl := Option.some.inj h
    exact List.nodup_cons.mpr ⟨ht, hm⟩
  · obtain rfl := Option.some.inj h
    trivial
  · cases h

theorem unlock_holds [DecidableEq τ] (hm : m.Once) (ht : m.Holds md t) :
    (m.unlock md t).Holds md' t' ↔ t' ≠ t ∧ m.Holds md' t' := by
  unfold unlock
  split
  · cases md' with
    | shared => exact hm.mem_erase_iff
    | exclusive => simp [Holds]
  · obtain rfl := ht
    rw [if_pos rfl]
    cases md' with
    | shared => simp [free, Holds]
    | exclusive =>
      refine ⟨fun h => h.elim, fun h => ?_⟩
      exact absurd h.2.symm h.1
  · next hne₁ hne₂ =>
    cases m with
    | shared readers =>
      cases md with
      | shared => exact absurd rfl (hne₁ readers rfl)
      | exclusive => exact ht.elim
    | exclusive writer =>
      cases md with
      | shared => exact ht.elim
      | exclusive => exact absurd rfl (hne₂ writer rfl)

theorem unlock_once [DecidableEq τ] (hm : m.Once) : (m.unlock md t).Once := by
  unfold unlock
  split
  · exact hm.erase _
  · split
    · exact List.nodup_nil
    · trivial
  · exact hm

/-- A thread has to wait for holders only with whom it cannot share the lock. -/
theorem conflict_of_lock (h : m.lock md t = none) :
    ∃ t' md', m.Holds md' t' ∧ (md = .exclusive ∨ md' = .exclusive) := by
  cases m with
  | exclusive writer => exact ⟨writer, .exclusive, rfl, .inr rfl⟩
  | shared readers =>
    cases md with
    | shared => cases h
    | exclusive =>
      cases readers with
      | nil => cases h
      | cons t' readers => exact ⟨t', .shared, List.mem_cons_self, .inl rfl⟩

theorem eq_of_exclusive (h : m.Holds .exclusive t) (h' : m.Holds md t') : t' = t := by
  cases m with
  | shared => exact h.elim
  | exclusive writer =>
    cases md with
    | shared => exact h'.elim
    | exclusive => exact Eq.trans (Eq.symm h') h

/-! ## Systems -/

/-- Each thread holds the lock in the mode that its program counter asks for. -/
def Respects (m : SharedMutex τ) (mode : τ → Option Mode) : Prop :=
  ∀ t md, mode t = some md → m.Holds md t

/-- The lock is held by the threads that their program counters take to hold it, and by no
others. -/
structure Exact (m : SharedMutex τ) (mode : τ → Option Mode) : Prop where
  once : m.Once
  holds : ∀ t md, m.Holds md t ↔ mode t = some md

variable {mode : τ → Option Mode}

theorem Exact.respects (h : Exact m mode) : Respects m mode :=
  fun t md => (h.holds t md).mpr

/-- A lock that nobody holds yet. -/
theorem Exact.free (h : ∀ t, mode t = none) : Exact (free : SharedMutex τ) mode :=
  ⟨List.nodup_nil, fun t md => by simp [not_holds_free, h t]⟩

section Steps

variable [DecidableEq τ]

/-- The thread that acquires the lock goes inside. -/
theorem Exact.lock (h : Exact m mode) (ht : mode t = none) (hl : m.lock md t = some m') :
    Exact m' (Function.update mode t (some md)) := by
  refine ⟨lock_once hl h.once fun hold => ?_, fun t' md' => ?_⟩
  · rw [h.holds, ht] at hold
    cases hold
  · rw [lock_holds hl, h.holds]
    by_cases heq : t' = t
    · subst heq
      simp [ht, eq_comm]
    · simp [heq]

/-- The thread that releases the lock goes outside. -/
theorem Exact.unlock (h : Exact m mode) (ht : mode t = some md) :
    Exact (m.unlock md t) (Function.update mode t none) := by
  refine ⟨unlock_once h.once, fun t' md' => ?_⟩
  rw [unlock_holds h.once ((h.holds t md).mpr ht), h.holds]
  by_cases heq : t' = t
  · subst heq
    simp
  · simp [heq]

end Steps

/-- A thread inside a lock held exclusively is the one that holds it. -/
theorem Respects.eq_of_exclusive (h : Respects m mode) (ht : mode t = some .exclusive)
    (ht' : mode t' = some md) : t' = t :=
  SharedMutex.eq_of_exclusive (h t _ ht) (h t' md ht')

end SharedMutex
