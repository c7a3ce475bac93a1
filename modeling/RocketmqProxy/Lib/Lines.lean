import Mathlib

/-!
# Text in lines

A text in which a separator ends each line tells its lines, as long as the separator is in
none of them.
-/

namespace Lines

variable {α : Type*} {sep : α} {ls ls' : List (List α)}

/-- The lines one after the other, each with the separator at its end. -/
def text (sep : α) (ls : List (List α)) : List α := ls.flatMap (· ++ [sep])

theorem text_append (sep : α) (ls ls' : List (List α)) :
    text sep (ls ++ ls') = text sep ls ++ text sep ls' := List.flatMap_append

/-- The separator ends a line, or stands between it and the empty rest. -/
theorem text_eq_intercalate (sep : α) (ls : List (List α)) :
    text sep ls = [sep].intercalate (ls ++ [[]]) := by
  induction ls with
  | nil => rfl
  | cons l ls ih =>
    have hcons : text sep (l :: ls) = l ++ [sep] ++ text sep ls := rfl
    rw [hcons, ih, List.cons_append, List.intercalate_cons_of_ne_nil (by simp)]

variable [BEq α] [LawfulBEq α]

theorem splitOn_text (h : ∀ l ∈ ls, sep ∉ l) : (text sep ls).splitOn sep = ls ++ [[]] := by
  rw [text_eq_intercalate]
  refine List.splitOn_intercalate sep (fun l hl => ?_) (by simp)
  rcases List.mem_append.mp hl with hl | hl
  · exact h l hl
  · rw [List.mem_singleton.mp hl]
    exact List.not_mem_nil

theorem text_injective (h : ∀ l ∈ ls, sep ∉ l) (h' : ∀ l ∈ ls', sep ∉ l)
    (he : text sep ls = text sep ls') : ls = ls' := by
  have hsplit := congrArg (List.splitOn sep) he
  rw [splitOn_text h, splitOn_text h'] at hsplit
  exact List.append_cancel_right hsplit

end Lines
