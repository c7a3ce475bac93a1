import RocketmqProxy.Lib.History

/-!
# Linearizable histories

A history lists the invocations and the responses of the calls on an object, in the order
in which they happened.  It is linearizable if the calls can be put in one sequence that
the sequential object allows and that contradicts neither the responses nor the order of
calls of which one ended before the other began.
-/

namespace Linear

variable {σ α ρ : Type*}

/-- Each call has a number of its own. -/
inductive Item (α ρ : Type*)
  | invoke (c : Nat) (arg : α)
  | respond (c : Nat) (ret : ρ)
deriving DecidableEq, Repr

/-- A call, as the sequential object sees it. -/
structure Op (α ρ : Type*) where
  call : Nat
  arg : α
  ret : ρ
deriving DecidableEq, Repr

/-- The object takes the calls one after the other.  `f` says what a call returns and what
it leaves, or `none` while it has to wait. -/
inductive Legal (f : σ → α → Option (ρ × σ)) (init : σ) : List (Op α ρ) → σ → Prop
  | nil : Legal f init [] init
  | concat {ops : List (Op α ρ)} {s s' : σ} {op : Op α ρ} (h : Legal f init ops s)
      (hop : f s op.arg = some (op.ret, s')) : Legal f init (ops ++ [op]) s'

/-- Each call of the sequence is one that the object has allowed. -/
theorem Legal.of_mem {f : σ → α → Option (ρ × σ)} {init s : σ} {ops : List (Op α ρ)}
    (h : Legal f init ops s) {op : Op α ρ} (hop : op ∈ ops) :
    ∃ s₁ s₂, f s₁ op.arg = some (op.ret, s₂) := by
  induction h with
  | nil => exact absurd hop List.not_mem_nil
  | concat _ hlast ih =>
    rcases List.mem_append.mp hop with hop | hop
    · exact ih hop
    · rw [List.mem_singleton.mp hop]
      exact ⟨_, _, hlast⟩

/-- The sequence `ops` explains the history `h`. -/
structure Explains (ops : List (Op α ρ)) (h : List (Item α ρ)) : Prop where
  /-- Each call is there at most once. -/
  once : (ops.map Op.call).Nodup
  invoked : ∀ op ∈ ops, .invoke op.call op.arg ∈ h
  /-- A call that has returned is there, with what it has returned. -/
  returned : ∀ c r, .respond c r ∈ h → ∃ op ∈ ops, op.call = c ∧ op.ret = r
  /-- A call that was invoked when another had returned comes after it. -/
  order : ∀ h₁ c r h₂, h = h₁ ++ .respond c r :: h₂ → ∀ op ∈ ops,
    .invoke op.call op.arg ∈ h₂ → ∃ ops₁ ops₂, ops = ops₁ ++ ops₂ ∧ c ∈ ops₁.map Op.call ∧
      op ∈ ops₂

/-- The history is that of calls taken one after the other, and leaves the object as `s`. -/
def Linearizable (f : σ → α → Option (ρ × σ)) (init : σ) (h : List (Item α ρ)) (s : σ) : Prop :=
  ∃ ops, Legal f init ops s ∧ Explains ops h

/-! ## Calls that take effect at one point -/

/-- A history in which the points where the calls take effect are marked. -/
inductive Mark (α ρ : Type*)
  | item (i : Item α ρ)
  | effect (op : Op α ρ)

namespace Mark

def visible : Mark α ρ → Option (Item α ρ)
  | item i => some i
  | effect _ => none

def op : Mark α ρ → Option (Op α ρ)
  | item _ => none
  | effect op => some op

end Mark

/-- What a history says of a call: nothing, or its argument and, if it has taken effect,
what it returns. -/
abbrev Status (α ρ : Type*) := Option (α × Option ρ)

/-- The marked history `t` leaves the object as `s`, and the calls as `status` says. -/
structure Tracks (f : σ → α → Option (ρ × σ)) (init : σ) (t : List (Mark α ρ)) (s : σ)
    (status : Nat → Status α ρ) : Prop where
  legal : Legal f init (t.filterMap Mark.op) s
  once : ((t.filterMap Mark.op).map Op.call).Nodup
  fresh : ∀ c, status c = none → ∀ a, .item (.invoke c a) ∉ t
  pending : ∀ c a, status c = some (a, none) → .item (.invoke c a) ∈ t
  idle : ∀ c op, .effect op ∈ t → op.call = c → ∃ a r, status c = some (a, some r)
  done : ∀ c a r, status c = some (a, some r) → .effect ⟨c, a, r⟩ ∈ t
  /-- A call takes effect after its invocation. -/
  began : ∀ t₁ op t₂, t = t₁ ++ .effect op :: t₂ → .item (.invoke op.call op.arg) ∈ t₁
  /-- A call returns after it has taken effect. -/
  ended : ∀ t₁ c r t₂, t = t₁ ++ .item (.respond c r) :: t₂ → ∃ a, .effect ⟨c, a, r⟩ ∈ t₁
  /-- A call is invoked once. -/
  first : ∀ t₁ c a t₂, t = t₁ ++ .item (.invoke c a) :: t₂ → ∀ a', .item (.invoke c a') ∉ t₁

variable {f : σ → α → Option (ρ × σ)} {init s s' : σ} {t : List (Mark α ρ)}
  {status : Nat → Status α ρ} {c : Nat} {a : α} {r : ρ}

namespace Tracks

theorem nil (f : σ → α → Option (ρ × σ)) (init : σ) :
    Tracks f init [] init fun _ => none where
  legal := .nil
  once := List.nodup_nil
  fresh := fun _ _ _ => List.not_mem_nil
  pending := fun _ _ h => absurd h (by simp)
  idle := fun _ _ h => absurd h List.not_mem_nil
  done := fun _ _ _ h => absurd h (by simp)
  began := fun _ _ _ h => absurd h (by simp)
  ended := fun _ _ _ _ h => absurd h (by simp)
  first := fun _ _ _ _ h => absurd h (by simp)

/-- A new call. -/
theorem invoke (h : Tracks f init t s status) (hc : status c = none) (a : α) :
    Tracks f init (t ++ [.item (.invoke c a)]) s (Function.update status c (some (a, none))) where
  legal := by
    rw [History.filterMap_concat_none rfl]
    exact h.legal
  once := by
    rw [History.filterMap_concat_none rfl]
    exact h.once
  fresh := by
    intro d hd b hmem
    by_cases hdc : d = c
    · simp [hdc] at hd
    · rw [Function.update_of_ne hdc] at hd
      rcases List.mem_append.mp hmem with hmem | hmem
      · exact h.fresh d hd b hmem
      · simp [hdc] at hmem
  pending := by
    intro d b hd
    by_cases hdc : d = c
    · subst hdc
      rw [Function.update_self] at hd
      simp only [Option.some.injEq, Prod.mk.injEq, and_true] at hd
      simp [hd]
    · rw [Function.update_of_ne hdc] at hd
      exact List.mem_append_left _ (h.pending d b hd)
  idle := by
    intro d op hmem hop
    have hmem : .effect op ∈ t := by simpa using hmem
    obtain ⟨b, r, hd⟩ := h.idle d op hmem hop
    have hdc : d ≠ c := by
      rintro rfl
      rw [hc] at hd
      cases hd
    exact ⟨b, r, by rw [Function.update_of_ne hdc, hd]⟩
  done := by
    intro d b r hd
    by_cases hdc : d = c
    · simp [hdc] at hd
    · rw [Function.update_of_ne hdc] at hd
      exact List.mem_append_left _ (h.done d b r hd)
  began := by
    intro t₁ op t₂ he
    rcases History.concat_eq_append_cons he with ⟨t₂', -, ht⟩ | ⟨-, -, hx⟩
    · exact h.began t₁ op t₂' ht
    · cases hx
  ended := by
    intro t₁ d r t₂ he
    rcases History.concat_eq_append_cons he with ⟨t₂', -, ht⟩ | ⟨-, -, hx⟩
    · exact h.ended t₁ d r t₂' ht
    · cases hx
  first := by
    intro t₁ d b t₂ he b'
    rcases History.concat_eq_append_cons he with ⟨t₂', -, ht⟩ | ⟨-, rfl, hx⟩
    · exact h.first t₁ d b t₂' ht b'
    · cases hx
      exact h.fresh c hc b'

/-- A call takes effect. -/
theorem effect (h : Tracks f init t s status) (hc : status c = some (a, none))
    (hf : f s a = some (r, s')) :
    Tracks f init (t ++ [.effect ⟨c, a, r⟩]) s' (Function.update status c (some (a, some r))) where
  legal := by
    rw [History.filterMap_concat]
    exact h.legal.concat hf
  once := by
    rw [History.filterMap_concat, List.map_append]
    refine List.Nodup.append h.once (by simp [Mark.op]) ?_
    intro d hd hdc
    obtain rfl : d = c := by simpa [Mark.op] using hdc
    obtain ⟨op, hop, rfl⟩ := List.mem_map.mp hd
    obtain ⟨m, hm, hmop⟩ := List.mem_filterMap.mp hop
    cases m with
    | item => cases hmop
    | effect op' =>
      obtain rfl := Option.some.inj hmop
      obtain ⟨b, r', hd⟩ := h.idle _ _ hm rfl
      rw [hc] at hd
      cases hd
  fresh := by
    intro d hd b hmem
    by_cases hdc : d = c
    · simp [hdc] at hd
    · rw [Function.update_of_ne hdc] at hd
      exact h.fresh d hd b (by simpa using hmem)
  pending := by
    intro d b hd
    by_cases hdc : d = c
    · simp [hdc] at hd
    · rw [Function.update_of_ne hdc] at hd
      exact List.mem_append_left _ (h.pending d b hd)
  idle := by
    intro d op hmem hop
    by_cases hdc : d = c
    · exact ⟨a, r, by rw [hdc, Function.update_self]⟩
    · rw [Function.update_of_ne hdc]
      rcases List.mem_append.mp hmem with hmem | hmem
      · exact h.idle d op hmem hop
      · have hop' : op = ⟨c, a, r⟩ := by simpa using hmem
        rw [hop'] at hop
        exact absurd hop.symm hdc
  done := by
    intro d b r' hd
    by_cases hdc : d = c
    · subst hdc
      rw [Function.update_self] at hd
      simp only [Option.some.injEq, Prod.mk.injEq] at hd
      simp [hd]
    · rw [Function.update_of_ne hdc] at hd
      exact List.mem_append_left _ (h.done d b r' hd)
  began := by
    intro t₁ op t₂ he
    rcases History.concat_eq_append_cons he with ⟨t₂', -, ht⟩ | ⟨-, rfl, hx⟩
    · exact h.began t₁ op t₂' ht
    · cases hx
      exact h.pending c a hc
  ended := by
    intro t₁ d r' t₂ he
    rcases History.concat_eq_append_cons he with ⟨t₂', -, ht⟩ | ⟨-, -, hx⟩
    · exact h.ended t₁ d r' t₂' ht
    · cases hx
  first := by
    intro t₁ d b t₂ he b'
    rcases History.concat_eq_append_cons he with ⟨t₂', -, ht⟩ | ⟨-, -, hx⟩
    · exact h.first t₁ d b t₂' ht b'
    · cases hx

/-- A call returns. -/
theorem respond (h : Tracks f init t s status) (hc : status c = some (a, some r)) :
    Tracks f init (t ++ [.item (.respond c r)]) s status where
  legal := by
    rw [History.filterMap_concat_none rfl]
    exact h.legal
  once := by
    rw [History.filterMap_concat_none rfl]
    exact h.once
  fresh := fun d hd b hmem => h.fresh d hd b (by simpa using hmem)
  pending := fun d b hd => List.mem_append_left _ (h.pending d b hd)
  idle := fun d op hmem hop => h.idle d op (by simpa using hmem) hop
  done := fun d b r' hd => List.mem_append_left _ (h.done d b r' hd)
  began := by
    intro t₁ op t₂ he
    rcases History.concat_eq_append_cons he with ⟨t₂', -, ht⟩ | ⟨-, -, hx⟩
    · exact h.began t₁ op t₂' ht
    · cases hx
  ended := by
    intro t₁ d r' t₂ he
    rcases History.concat_eq_append_cons he with ⟨t₂', -, ht⟩ | ⟨-, rfl, hx⟩
    · exact h.ended t₁ d r' t₂' ht
    · cases hx
      exact ⟨a, h.done c a r hc⟩
  first := by
    intro t₁ d b t₂ he b'
    rcases History.concat_eq_append_cons he with ⟨t₂', -, ht⟩ | ⟨-, -, hx⟩
    · exact h.first t₁ d b t₂' ht b'
    · cases hx

theorem mem_op {op : Op α ρ} : op ∈ t.filterMap Mark.op ↔ .effect op ∈ t := by
  rw [List.mem_filterMap]
  constructor
  · rintro ⟨m, hm, hop⟩
    cases m with
    | item => cases hop
    | effect op' =>
      obtain rfl := Option.some.inj hop
      exact hm
  · exact fun h => ⟨_, h, rfl⟩

theorem mem_visible {i : Item α ρ} : i ∈ t.filterMap Mark.visible ↔ .item i ∈ t := by
  rw [List.mem_filterMap]
  constructor
  · rintro ⟨m, hm, hi⟩
    cases m with
    | item i' =>
      obtain rfl := Option.some.inj hi
      exact hm
    | effect => cases hi
  · exact fun h => ⟨_, h, rfl⟩

/-- Every effect is that of a call that has been invoked. -/
theorem began_mem (h : Tracks f init t s status) {op : Op α ρ} (hop : .effect op ∈ t) :
    .item (.invoke op.call op.arg) ∈ t := by
  obtain ⟨t₁, t₂, ht⟩ := List.append_of_mem hop
  rw [ht]
  exact List.mem_append_left _ (h.began t₁ op t₂ ht)

theorem explains (h : Tracks f init t s status) :
    Explains (t.filterMap Mark.op) (t.filterMap Mark.visible) where
  once := h.once
  invoked := fun op hop => mem_visible.mpr (h.began_mem (mem_op.mp hop))
  returned := by
    intro c r hmem
    obtain ⟨t₁, t₂, ht⟩ := List.append_of_mem (mem_visible.mp hmem)
    obtain ⟨a, ha⟩ := h.ended t₁ c r t₂ ht
    refine ⟨⟨c, a, r⟩, mem_op.mpr ?_, rfl, rfl⟩
    rw [ht]
    exact List.mem_append_left _ ha
  order := by
    intro h₁ c r h₂ he op hop hinv
    obtain ⟨t₁, t₂', rfl, rfl, ht₂'⟩ := List.filterMap_eq_append_iff.mp he
    obtain ⟨u, m, t₂, rfl, hu, hm, rfl⟩ := List.filterMap_eq_cons_iff.mp ht₂'
    have hm' : m = .item (.respond c r) := by
      cases m with
      | item i => exact congrArg Mark.item (Option.some.inj hm)
      | effect => cases hm
    subst hm'
    have ht : t₁ ++ (u ++ .item (.respond c r) :: t₂) =
        (t₁ ++ u) ++ .item (.respond c r) :: t₂ := (List.append_assoc _ _ _).symm
    rw [ht] at hop h ⊢
    obtain ⟨a, ha⟩ := h.ended _ c r t₂ rfl
    refine ⟨(t₁ ++ u).filterMap Mark.op, t₂.filterMap Mark.op, ?_, ?_, ?_⟩
    · rw [List.filterMap_append, List.filterMap_cons_none rfl]
    · exact List.mem_map.mpr ⟨_, mem_op.mpr ha, rfl⟩
    · rcases List.mem_append.mp (mem_op.mp hop) with hbefore | hafter
      · -- it would have been invoked before the response, and again after it
        exfalso
        obtain ⟨v₁, v₂, hv⟩ := List.append_of_mem hbefore
        have hold : .item (.invoke op.call op.arg) ∈ t₁ ++ u := by
          rw [hv]
          refine List.mem_append_left _ (h.began v₁ op (v₂ ++ .item (.respond c r) :: t₂) ?_)
          rw [hv, List.append_assoc]
          rfl
        obtain ⟨w₁, w₂, hw⟩ := List.append_of_mem (mem_visible.mp hinv)
        refine h.first (t₁ ++ u ++ .item (.respond c r) :: w₁) op.call op.arg w₂ ?_ op.arg
          (List.mem_append_left _ hold)
        rw [hw]
        simp
      · exact mem_op.mpr (by simpa using hafter)

theorem linearizable (h : Tracks f init t s status) :
    Linearizable f init (t.filterMap Mark.visible) s :=
  ⟨_, h.legal, h.explains⟩

end Tracks

end Linear
