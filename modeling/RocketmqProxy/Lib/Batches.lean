import Mathlib

/-!
# Texts collected into batches

Texts come one by one.  Those that have come since the last batch wait, and are then sent
together, as one text.
-/

namespace Batches

/-- The texts `items`, in order: those of the batches sent so far, each of at most `bound`
texts, and those that wait. -/
structure Split (bound : Int) (items : List String) (batches : List (List String))
    (waiting : List String) : Prop where
  order : batches.flatten ++ waiting = items
  bounded : ∀ batch ∈ batches, (batch.length : Int) ≤ bound

variable {bound : Int} {items waiting : List String} {batches : List (List String)}

theorem Split.nil (bound : Int) : Split bound [] [] [] :=
  ⟨rfl, fun _ h => absurd h List.not_mem_nil⟩

theorem Split.add (h : Split bound items batches waiting) (text : String) :
    Split bound (items ++ [text]) batches (waiting ++ [text]) :=
  ⟨by rw [← List.append_assoc, h.order], h.bounded⟩

theorem Split.send (h : Split bound items batches waiting)
    (hle : (waiting.length : Int) ≤ bound) :
    Split bound items (batches ++ [waiting]) [] := by
  refine ⟨?_, fun batch hmem => ?_⟩
  · rw [List.flatten_concat, List.append_nil, h.order]
  · rcases List.mem_append.mp hmem with hmem | hmem
    · exact h.bounded batch hmem
    · rw [List.mem_singleton.mp hmem]
      exact hle

end Batches
