import Mathlib

/-!
# The proleptic Gregorian calendar

Dates before the calendar was introduced follow its rules as well, so every day has a
date.  Days are counted from 1970-01-01, in both directions.
-/

namespace Gregorian

/-! ## Years -/

def IsLeap (year : Int) : Prop := 4 ∣ year ∧ (100 ∣ year → 400 ∣ year)

instance (year : Int) : Decidable (IsLeap year) := inferInstanceAs (Decidable (_ ∧ _))

def yearLength (year : Int) : Int := if IsLeap year then 366 else 365

/-- The days from 0001-01-01 to the first day of `year`. -/
def daysBeforeYear (year : Int) : Int :=
  365 * (year - 1) + (year - 1) / 4 - (year - 1) / 100 + (year - 1) / 400

theorem daysBeforeYear_succ (year : Int) :
    daysBeforeYear (year + 1) = daysBeforeYear year + yearLength year := by
  by_cases hleap : IsLeap year
  · rw [yearLength, if_pos hleap, daysBeforeYear, daysBeforeYear]
    rw [IsLeap] at hleap
    omega
  · rw [yearLength, if_neg hleap, daysBeforeYear, daysBeforeYear]
    rw [IsLeap] at hleap
    omega

/-- The year of the day that is `n` days after 0001-01-01: the centuries of its 400 years,
the groups of four years of its century and the years of its group, where the last century
and the last year may be a day longer than the others. -/
def yearOf (n : Int) : Int :=
  let day := n % 146097
  let century := min 3 (day / 36524)
  let day := day - 36524 * century
  let group := day / 1461
  let day := day - 1461 * group
  400 * (n / 146097) + 100 * century + 4 * group + min 3 (day / 365) + 1

/-- The first day of a year, by the parts that `yearOf` adds up. -/
theorem daysBeforeYear_of_parts {year e c g y : Int}
    (hyear : year = 400 * e + 100 * c + 4 * g + y + 1) (hc : 0 ≤ c ∧ c ≤ 3)
    (hg : 0 ≤ g ∧ g ≤ 24) (hy : 0 ≤ y ∧ y ≤ 3) :
    daysBeforeYear year = 146097 * e + 36524 * c + 1461 * g + 365 * y := by
  rw [daysBeforeYear]
  omega

theorem yearOf_spec (n : Int) :
    daysBeforeYear (yearOf n) ≤ n ∧ n < daysBeforeYear (yearOf n) + yearLength (yearOf n) := by
  rw [← daysBeforeYear_succ]
  simp only [yearOf]
  generalize he : n / 146097 = e
  generalize hd : n % 146097 = d
  generalize hc : min 3 (d / 36524) = c
  generalize hg : (d - 36524 * c) / 1461 = g
  generalize hy : min 3 ((d - 36524 * c - 1461 * g) / 365) = y
  have hc' : 0 ≤ c ∧ c ≤ 3 := by omega
  have hg' : 0 ≤ g ∧ g ≤ 24 := by omega
  have hy' : 0 ≤ y ∧ y ≤ 3 := by omega
  have hnext := @daysBeforeYear_of_parts (400 * e + 100 * c + 4 * g + y + 1 + 1)
  rw [daysBeforeYear_of_parts rfl hc' hg' hy']
  refine ⟨by omega, ?_⟩
  -- the next year begins a new part unless it is in the same group
  rcases lt_or_eq_of_le hy'.2 with hy₃ | rfl
  · have hyear := @hnext e c g (y + 1) (by omega) hc' hg' (by omega)
    omega
  rcases lt_or_eq_of_le hg'.2 with hg₃ | rfl
  · have hgroup := @hnext e c (g + 1) 0 (by omega) hc' (by omega) (by omega)
    omega
  rcases lt_or_eq_of_le hc'.2 with hc₃ | rfl
  · have hcentury := @hnext e (c + 1) 0 0 (by omega) (by omega) (by omega) (by omega)
    omega
  · have hera := @hnext (e + 1) 0 0 0 (by omega) (by omega) (by omega) (by omega)
    omega

/-! ## Months -/

def monthLengths (year : Int) : List Nat :=
  [31, if IsLeap year then 29 else 28, 31, 30, 31, 30, 31, 31, 30, 31, 30, 31]

theorem sum_monthLengths (year : Int) : ((monthLengths year).sum : Int) = yearLength year := by
  by_cases hleap : IsLeap year <;> simp [monthLengths, yearLength, hleap]

/-- The block that holds position `n` when blocks of the given lengths follow one another,
and the position in the block. -/
def locate : List Nat → Nat → Nat × Nat
  | [], n => (0, n)
  | l :: ls, n => if n < l then (0, n) else ((locate ls (n - l)).1 + 1, (locate ls (n - l)).2)

theorem locate_spec {ls : List Nat} {n : Nat} (h : n < ls.sum) :
    (ls.take (locate ls n).1).sum + (locate ls n).2 = n ∧
      (locate ls n).2 < ls.getD (locate ls n).1 0 := by
  induction ls generalizing n with
  | nil => exact absurd h (Nat.not_lt_zero n)
  | cons l ls ih =>
    rw [locate]
    by_cases hn : n < l
    · simp [hn]
    · rw [List.sum_cons] at h
      obtain ⟨hsum, hlt⟩ := @ih (n - l) (by omega)
      rw [if_neg hn]
      refine ⟨?_, by simpa using hlt⟩
      rw [List.take_succ_cons, List.sum_cons]
      omega

/-! ## Dates -/

/-- A day of the calendar.  Months are counted from 0, days of a month from 1. -/
structure Date where
  year : Int
  month : Nat
  day : Nat
  day_pos : 1 ≤ day
  day_le : day ≤ (monthLengths year).getD month 0
deriving DecidableEq, Repr

namespace Date

/-- The days from 0001-01-01 to 1970-01-01. -/
def epoch : Int := daysBeforeYear 1970

/-- The number of a day. -/
def toDays (date : Date) : Int :=
  daysBeforeYear date.year + ((monthLengths date.year).take date.month).sum + (date.day - 1) -
    epoch

/-- The position of a day in its year. -/
def yearDay (n : Int) : Nat := (n - daysBeforeYear (yearOf n)).toNat

theorem yearDay_eq (n : Int) : (yearDay n : Int) = n - daysBeforeYear (yearOf n) :=
  Int.toNat_of_nonneg (by have := (yearOf_spec n).1; omega)

theorem yearDay_lt (n : Int) : yearDay n < (monthLengths (yearOf n)).sum := by
  have hsum := sum_monthLengths (yearOf n)
  have hlt := (yearOf_spec n).2
  have hday := yearDay_eq n
  omega

/-- The date of a day. -/
def ofDays (n : Int) : Date where
  year := yearOf (n + epoch)
  month := (locate (monthLengths (yearOf (n + epoch))) (yearDay (n + epoch))).1
  day := (locate (monthLengths (yearOf (n + epoch))) (yearDay (n + epoch))).2 + 1
  day_pos := Nat.succ_pos _
  day_le := (locate_spec (yearDay_lt (n + epoch))).2

theorem toDays_ofDays (n : Int) : (ofDays n).toDays = n := by
  have hsum := (locate_spec (yearDay_lt (n + epoch))).1
  have hday := yearDay_eq (n + epoch)
  simp only [toDays, ofDays]
  omega

/-- The date with these parts, if there is one. -/
def ofParts (year : Int) (month day : Nat) : Option Date :=
  if h : 1 ≤ day ∧ day ≤ (monthLengths year).getD month 0 then
    some ⟨year, month, day, h.1, h.2⟩
  else none

theorem ofParts_eq (date : Date) : ofParts date.year date.month date.day = some date :=
  dif_pos ⟨date.day_pos, date.day_le⟩

example : ((ofDays 19782).year, (ofDays 19782).month, (ofDays 19782).day) = (2024, 1, 29) := by
  decide

end Date
end Gregorian
