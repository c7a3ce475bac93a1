import Mathlib

/-!
# Decimal fields of a text

A number is written in decimal, with zeros in front up to a width, and read back up to the
character that ends its field.
-/

namespace Decimal

/-- The digits of `n`, at least `width` of them. -/
def pad (width n : Nat) : List Char := (Nat.toDigits 10 n).leftpad width '0'

theorem toList_repr_eq_pad (n : Nat) : n.repr.toList = pad 0 n := by
  rw [Nat.toList_repr, pad, List.leftpad, Nat.zero_sub, List.replicate_zero, List.nil_append]

theorem isDigit_of_mem_pad {width n : Nat} {c : Char} (h : c ∈ pad width n) :
    c.isDigit = true := by
  rw [pad, List.leftpad, List.mem_append] at h
  rcases h with hzero | hdigit
  · rw [List.eq_of_mem_replicate hzero]
    rfl
  · exact Nat.isDigit_of_mem_toDigits (by decide) (by decide) hdigit

theorem pad_ne_nil (width n : Nat) : pad width n ≠ [] := by
  rw [pad, List.leftpad]
  exact List.append_ne_nil_of_right_ne_nil _ Nat.toDigits_ne_nil

theorem le_length_pad (width n : Nat) : width ≤ (pad width n).length := by
  rw [pad, List.length_leftpad]
  exact Nat.le_max_left _ _

/-- The number that a text of digits stands for. -/
def value (s : List Char) : Option Nat :=
  if s ≠ [] ∧ ∀ c ∈ s, c.isDigit = true then some (Nat.ofDigitChars 10 s 0) else none

theorem value_pad (width n : Nat) : value (pad width n) = some n := by
  rw [value, if_pos ⟨pad_ne_nil width n, fun c => isDigit_of_mem_pad⟩, pad, List.leftpad,
    Nat.ofDigitChars_append, Nat.ofDigitChars_replicate_zero, Nat.mul_zero,
    Nat.ofDigitChars_ten_toDigits]

/-- The text before the first `sep`, and the text behind it. -/
def cut (sep : Char) : List Char → Option (List Char × List Char)
  | [] => none
  | c :: s => if c = sep then some ([], s) else (cut sep s).map fun r => (c :: r.1, r.2)

theorem cut_append {sep : Char} {s : List Char} (h : sep ∉ s) (rest : List Char) :
    cut sep (s ++ sep :: rest) = some (s, rest) := by
  induction s with
  | nil => simp [cut]
  | cons c s ih =>
    obtain ⟨hc, hs⟩ := not_or.mp (mt List.mem_cons.mpr h)
    rw [List.cons_append, cut, if_neg (Ne.symm hc), ih hs]
    rfl

/-- The number in the field that ends with `sep`, and the text behind the field. -/
def field (sep : Char) (s : List Char) : Option (Nat × List Char) := do
  let r ← cut sep s
  let n ← value r.1
  some (n, r.2)

theorem field_pad {sep : Char} (hsep : sep.isDigit = false) (width n : Nat)
    (rest : List Char) : field sep (pad width n ++ sep :: rest) = some (n, rest) := by
  have hout : sep ∉ pad width n := fun h =>
    absurd (isDigit_of_mem_pad h) (by rw [hsep]; exact Bool.false_ne_true)
  rw [field, cut_append hout]
  simp only [Option.bind_eq_bind, Option.bind_some, value_pad]

/-- The number in the field that ends with `sep`, where a minus sign may stand in front. -/
def intField (sep : Char) : List Char → Option (Int × List Char)
  | '-' :: s => (field sep s).map fun r => (-(r.1 : Int), r.2)
  | s => (field sep s).map fun r => ((r.1 : Int), r.2)

theorem intField_digits {sep : Char} {s : List Char} (h : s.head? ≠ some '-') :
    intField sep s = (field sep s).map fun r => ((r.1 : Int), r.2) := by
  rw [intField]
  intro rest he
  exact h (by rw [he]; rfl)

theorem intField_toString {sep : Char} (hsep : sep.isDigit = false) (n : Int)
    (rest : List Char) : intField sep ((toString n).toList ++ sep :: rest) = some (n, rest) := by
  cases n with
  | ofNat m =>
    have hpad : (toString (Int.ofNat m)).toList = pad 0 m := by
      show (toString m).toList = _
      rw [Nat.toString_eq_repr, toList_repr_eq_pad]
    have hhead : (pad 0 m ++ sep :: rest).head? ≠ some '-' := by
      rw [List.head?_append_of_ne_nil _ (pad_ne_nil 0 m)]
      intro hminus
      exact absurd (isDigit_of_mem_pad (List.mem_of_head? hminus)) (by decide)
    rw [hpad, intField_digits hhead, field_pad hsep]
    rfl
  | negSucc m =>
    have hpad : (toString (Int.negSucc m)).toList = '-' :: pad 0 (m + 1) := by
      show ("-" ++ toString (m + 1)).toList = _
      rw [String.toList_append, Nat.toString_eq_repr, toList_repr_eq_pad]
      rfl
    rw [hpad, List.cons_append, intField, field_pad hsep]
    rfl

theorem toString_length_pos (n : Int) : 1 ≤ (toString n).length := by
  cases n with
  | ofNat m =>
    show 1 ≤ (toString m).length
    rw [Nat.toString_eq_repr, ← String.length_toList, Nat.toList_repr]
    exact Nat.length_toDigits_pos
  | negSucc m =>
    show 1 ≤ ("-" ++ toString (m + 1)).length
    rw [String.length_append]
    exact Nat.le_add_right 1 _

end Decimal
