import RocketmqProxy.Lib.History

/-!
# Round robin

A server takes the items of a queue one at a time.  When it is done with an item it puts it
back at the end, or the item leaves for good.  New items come at any time.
-/

namespace RoundRobin

variable {α : Type*}

/-- What waits, and what the server has in hand. -/
structure Line (α : Type*) where
  queue : List α
  hand : Option α

/-- A run from `start`, with the items that the server has taken, in order. -/
inductive Run (start : Line α) : List α → Line α → Prop
  | nil : Run start [] start
  | arrive {turns q : List α} {hand : Option α} {x : α} (h : Run start turns ⟨q, hand⟩)
      (hq : x ∉ q) (hh : hand ≠ some x) (hnew : x ∉ turns) : Run start turns ⟨q ++ [x], hand⟩
  | take {turns q : List α} {x : α} (h : Run start turns ⟨x :: q, none⟩) :
      Run start (turns ++ [x]) ⟨q, some x⟩
  | back {turns q : List α} {x : α} (h : Run start turns ⟨q, some x⟩) :
      Run start turns ⟨q ++ [x], none⟩
  | leave {turns q : List α} {x : α} (h : Run start turns ⟨q, some x⟩) :
      Run start turns ⟨q, none⟩

variable {start line : Line α} {turns : List α}

/-! ## Nobody overtakes -/

/-- The items are taken in the order in which they have joined the queue. -/
theorem Run.in_order (h : Run start turns line) :
    ∃ joined, start.queue ++ joined = turns ++ line.queue := by
  induction h with
  | nil => exact ⟨[], List.append_nil _⟩
  | @arrive _ q _ x _ _ _ _ ih | @back _ q x _ ih =>
    obtain ⟨joined, hj⟩ := ih
    exact ⟨joined ++ [x], by rw [← List.append_assoc, hj, List.append_assoc]⟩
  | take _ ih =>
    obtain ⟨joined, hj⟩ := ih
    exact ⟨joined, by rw [hj, List.append_assoc]; rfl⟩
  | leave _ ih => exact ih

/-- Once more items have been taken than are in front of `x`, they were the ones in front
of it, and then `x`. -/
theorem Run.first_turn (h : Run start turns line) {front behind : List α} {x : α}
    (hq : start.queue = front ++ x :: behind) (hlen : front.length < turns.length) :
    ∃ later, turns = front ++ x :: later := by
  obtain ⟨joined, hj⟩ := h.in_order
  have hfront : front ++ [x] <+: start.queue ++ joined :=
    ⟨behind ++ joined, by rw [hq]; simp⟩
  have hturns : turns <+: start.queue ++ joined := ⟨line.queue, hj.symm⟩
  obtain ⟨later, hlater⟩ := List.prefix_of_prefix_length_le hfront hturns (by simpa using hlen)
  exact ⟨later, by rw [← hlater, List.append_assoc]; rfl⟩

/-! ## Everybody in turn -/

/-- Each item is there once. -/
def Line.Distinct (line : Line α) : Prop := (line.hand.toList ++ line.queue).Nodup

theorem Run.distinct (hs : start.Distinct) (h : Run start turns line) : line.Distinct := by
  induction h with
  | nil => exact hs
  | @arrive _ q hand x _ hq hh _ ih =>
    have hx : x ∉ hand.toList ++ q := by
      simpa [hq] using fun hx => hh (Option.mem_toList.mp hx)
    rw [Line.Distinct, ← List.append_assoc]
    exact ih.append (List.nodup_singleton x) (by simpa using hx)
  | take _ ih => exact ih
  | @back _ q x _ ih => exact (List.perm_append_singleton x q).nodup_iff.mpr ih
  | leave _ ih => exact (List.nodup_cons.mp ih).2

/-- The item in hand is the one taken last. -/
theorem Run.hand_last (h : Run start turns line) {x : α} (hx : line.hand = some x) :
    turns = [] ∨ ∃ before, turns = before ++ [x] := by
  induction h with
  | nil => exact .inl rfl
  | arrive _ _ _ _ ih => exact ih hx
  | @take turns q y _ _ =>
    obtain rfl : y = x := Option.some.inj hx
    exact .inr ⟨turns, rfl⟩
  | back | leave => cases hx

/-- What has been taken since the last turn of `u`, which is in the queue again: each item
once, and none of them is in front of `u`. -/
theorem Run.behind (hs : start.Distinct) (h : Run start turns line) {t₁ t₂ q₁ q₂ : List α} {u : α}
    (ht : turns = t₁ ++ u :: t₂) (hu : u ∉ t₂) (hq : line.queue = q₁ ++ u :: q₂) :
    t₂.Nodup ∧ ∀ v ∈ t₂, v ∉ q₁ := by
  induction h generalizing t₂ q₁ q₂ with
  | nil => simp at ht
  | @arrive turns q hand x _ _ _ hnew ih =>
    rcases History.concat_eq_append_cons hq with ⟨q₂', -, hq'⟩ | ⟨-, -, rfl⟩
    · exact ih ht hu hq'
    · exact absurd (by rw [ht]; simp) hnew
  | @take turns q x h ih =>
    rcases History.concat_eq_append_cons ht with ⟨t₂', rfl, ht'⟩ | ⟨rfl, -, -⟩
    · have hu' : u ∉ t₂' := fun hmem => hu (List.mem_append_left _ hmem)
      have hq : q = q₁ ++ u :: q₂ := hq
      have hq' : x :: q = (x :: q₁) ++ u :: q₂ := by rw [hq, List.cons_append]
      obtain ⟨hnodup, hfront⟩ := ih ht' hu' hq'
      have hx : x ∉ t₂' := fun hmem => hfront x hmem List.mem_cons_self
      have hxq : x ∉ q := (List.nodup_cons.mp (h.distinct hs)).1
      refine ⟨List.Nodup.append hnodup (List.nodup_singleton x) (by simpa using hx), ?_⟩
      intro v hv
      rcases List.mem_append.mp hv with hv | hv
      · exact fun hmem => hfront v hv (List.mem_cons_of_mem x hmem)
      · rw [List.mem_singleton.mp hv]
        exact fun hmem => hxq (by rw [hq]; exact List.mem_append_left _ hmem)
    · exact ⟨List.nodup_nil, fun v hv => absurd hv List.not_mem_nil⟩
  | @back turns q x h ih =>
    rcases History.concat_eq_append_cons hq with ⟨q₂', -, hq'⟩ | ⟨-, -, rfl⟩
    · exact ih ht hu hq'
    · -- nothing has been taken since
      rcases h.hand_last rfl with rfl | ⟨before, rfl⟩
      · simp at ht
      · rcases History.concat_eq_append_cons ht with ⟨t₂', rfl, -⟩ | ⟨rfl, -, -⟩
        · exact absurd (List.mem_append_right _ (List.mem_singleton.mpr rfl)) hu
        · exact ⟨List.nodup_nil, fun v hv => absurd hv List.not_mem_nil⟩
  | leave _ ih => exact ih ht hu hq

/-- Between two turns of an item no other item has two. -/
theorem Run.alternate (hs : start.Distinct) (h : Run start turns line) {t₁ t₂ t₃ : List α} {u : α}
    (ht : turns = t₁ ++ u :: t₂ ++ u :: t₃) (hu : u ∉ t₂) : t₂.Nodup := by
  induction h generalizing t₃ with
  | nil => simp at ht
  | arrive _ _ _ _ ih | back _ ih | leave _ ih => exact ih ht
  | @take turns q x h ih =>
    rcases History.concat_eq_append_cons ht with ⟨t₃', -, ht'⟩ | ⟨-, ht', rfl⟩
    · exact ih ht'
    · have hq : u :: q = [] ++ u :: q := rfl
      exact (h.behind hs ht'.symm hu hq).1

end RoundRobin
