import RocketmqProxy.Lib.Wire.Parse

/-!
# Reading at a pointer

A second parser goes over the text with a pointer.  It asks before each tag whether the text is
over, and only then notices that a value has run past its end.
-/

namespace Wire

variable {M U S α : Type}

/-- The pointer and its context together are `S`. -/
structure Context (U S : Type) where
  start : Bytes → S
  /-- Whether the text is over, none if the pointer has run past its end. -/
  done : S → Option (Bool × S)
  readTag : S → Option (Nat × S)
  readStringUtf8 : S → Option (Bytes × S)
  readVarint : S → Option (BitVec 64 × S)
  unknownField : Nat → S → Option (U × S)
  setLastTag : Nat → S → S
  endedAtLimit : S → Bool

def Context.read (c : Context U S) : (t : FieldType) → S → Option (t.Val × S)
  | .string, s => c.readStringUtf8 s
  | .int32, s => (c.readVarint s).map fun p => (p.1.setWidth 32, p.2)

namespace Descriptor

variable (c : Context U S) (d : Descriptor M U)

/-- The loop of the parser, for at most so many tags. -/
def internalParse : Nat → M → S → Outcome (M × S)
  | 0, _, _ => .outOfTurns
  | n + 1, m, s => (Outcome.ofOption (c.done s)).bind fun p =>
    if p.1 then .accepted (m, p.2)
    else (Outcome.ofOption (c.readTag p.2)).bind fun q =>
      match d.field q.1 with
      | some f => (Outcome.ofOption (c.read f.type q.2)).bind fun v =>
          internalParse n (f.set v.1 m) v.2
      | none =>
        if q.1 % 8 = 4 ∨ q.1 = 0 then .accepted (m, c.setLastTag q.1 q.2)
        else (Outcome.ofOption (c.unknownField q.1 q.2)).bind fun u =>
          internalParse n (d.addUnknown [u.1] m) u.2

/-- A whole text is one message. -/
def parseArray (bytes : Bytes) : Outcome M :=
  (d.internalParse c (bytes.length + 1) d.fresh (c.start bytes)).bind fun p =>
    if c.endedAtLimit p.2 then .accepted p.1 else .refused

end Descriptor

/-- A tag that may stand in front of a field. -/
def nonzero (p : Nat × α) : Option (Nat × α) := if p.1 = 0 then none else some p

/-- What is read at the pointer is read from the stream too, unless the pointer has run past
the end of the text.  `At` says what is left behind the pointer, none if it has. -/
def Refines (At : S → Option Bytes → Prop) (fast : S → Option (α × S))
    (slow : Input → Option (α × Input)) : Prop :=
  ∀ s x v s', At s x → fast s = some (v, s') → ∃ x', At s' x' ∧ ∀ b', x' = some b' →
    ∃ b, x = some b ∧ ∀ i : Input, i.bytes = b → ∃ i', slow i = some (v, i') ∧ i'.bytes = b'

/-- The pointer reads nothing that the streams do not read, and the texts that are written. -/
structure Context.Lawful (c : Context U S) (r : Runtime U) (At : S → Option Bytes → Prop) :
    Prop where
  start : ∀ b, At (c.start b) (some b)
  done_end : ∀ s, At s (some []) → ∃ s', c.done s = some (true, s') ∧ c.endedAtLimit s' = true
  done_more : ∀ s b, At s (some b) → b ≠ [] → ∃ s', c.done s = some (false, s') ∧ At s' (some b)
  done_over : ∀ s, At s none → c.done s = none
  lastTag : ∀ tag s, tag % 8 = 4 ∨ tag = 0 → c.endedAtLimit (c.setLastTag tag s) = false
  tag : Refines At (fun s => (c.readTag s).bind nonzero)
    fun i => nonzero ((r.readTag i).1.1, (r.readTag i).2)
  read : ∀ t, Refines At (c.read t) (r.read t)
  skip : ∀ tag, tag % 8 ≠ 4 → tag ≠ 0 → Refines At (c.unknownField tag) (r.skipField tag)
  string : ∀ s number v b, 1 ≤ number → number ≤ 15 →
    (r.writeString number v ++ b).length + 16 < 2 ^ 31 → At s (some (r.writeString number v ++ b)) →
      ∃ s₁, c.readTag s = some (8 * number + 2, s₁) ∧
        if r.verifyUtf8 v then ∃ s₂, c.readStringUtf8 s₁ = some (v, s₂) ∧ At s₂ (some b)
        else c.readStringUtf8 s₁ = none
  int32 : ∀ s number v b, 1 ≤ number → number ≤ 15 →
    (r.writeInt32 number v ++ b).length + 16 < 2 ^ 31 → At s (some (r.writeInt32 number v ++ b)) →
      ∃ s₁ s₂, c.readTag s = some (8 * number, s₁) ∧
        c.readVarint s₁ = some (v.signExtend 64, s₂) ∧ At s₂ (some b)
  unknown : ∀ s u b, (r.writeUnknown u ++ b).length + 16 < 2 ^ 31 →
    At s (some (r.writeUnknown u ++ b)) →
      ∃ s₁ s₂, c.readTag s = some (r.unknownTag u, s₁) ∧
        c.unknownField (r.unknownTag u) s₁ = some (u, s₂) ∧ At s₂ (some b)
  unknown_form : ∀ u, r.unknownTag u % 8 ≠ 4

section Reading

variable {r : Runtime U} {d : Descriptor M U} {c : Context U S} {At : S → Option Bytes → Prop}

theorem Descriptor.Lawful.tag_of_field (hd : d.Lawful) {tag : Nat} {f : Field M}
    (h : d.field tag = some f) : f.tag = tag := by
  have hf := List.find?_some h
  have hnumber := hd.number f (Descriptor.mem_of_field h)
  have hle := hd.tag_le (Descriptor.mem_of_field h)
  simp only [decide_eq_true_eq] at hf
  omega

/-- The streams look up the same field, although they give up above 127. -/
theorem field_readTag (hr : r.Lawful) (hd : d.Lawful) (i : Input) :
    (if (r.readTag i).1.2 then d.field (r.readTag i).1.1 else none) =
      d.field (r.readTag i).1.1 := by
  have hcutoff := hr.cutoff i
  split
  · rfl
  · rename_i hsmall
    rw [if_neg hsmall] at hcutoff
    cases hfield : d.field (r.readTag i).1.1 with
    | none => rfl
    | some f =>
      have htag := hd.tag_of_field hfield
      have hnumber := hd.number f (Descriptor.mem_of_field hfield)
      have hle := hd.tag_le (Descriptor.mem_of_field hfield)
      rw [Field.tag] at htag hle
      omega

/-- A step of the loop between two tags, at a pointer that has not run past the end. -/
theorem Context.Lawful.readTag (hc : c.Lawful r At) {s s' : S} {tag : Nat} {x : Option Bytes}
    (hs : At s x) (ht : c.readTag s = some (tag, s')) (h0 : tag ≠ 0) :
    ∃ x', At s' x' ∧ ∀ b', x' = some b' → ∃ b, x = some b ∧ ∀ i : Input, i.bytes = b →
      (r.readTag i).1.1 = tag ∧ (r.readTag i).2.bytes = b' := by
  have hfast : (c.readTag s).bind nonzero = some (tag, s') := by
    rw [ht, Option.bind_some, nonzero, if_neg h0]
  obtain ⟨x', hs', h⟩ := hc.tag s x tag s' hs hfast
  refine ⟨x', hs', fun b' hb' => ?_⟩
  obtain ⟨b, hb, h⟩ := h b' hb'
  refine ⟨b, hb, fun i hi => ?_⟩
  obtain ⟨i', hslow, hi'⟩ := h i hi
  change nonzero ((r.readTag i).1.1, (r.readTag i).2) = some (tag, i') at hslow
  rw [nonzero] at hslow
  split at hslow
  · exact absurd hslow (by simp)
  · obtain ⟨htag, rfl⟩ := Prod.mk.inj (Option.some.inj hslow)
    exact ⟨htag, hi'⟩

/-- What stands behind a tag, in both parsers. -/
theorem Context.Lawful.value (hr : r.Lawful) (hc : c.Lawful r At) {β : Type} {s s₁ s₂ : S}
    {tag : Nat} {x : Option Bytes} {v : β} {fast : S → Option (β × S)}
    {slow : Input → Option (β × Input)} (href : Refines At fast slow)
    (hlen : ∀ i v i', slow i = some (v, i') → i'.bytes.length ≤ i.bytes.length)
    (hs : At s x) (ht : c.readTag s = some (tag, s₁)) (h0 : tag ≠ 0)
    (hv : fast s₁ = some (v, s₂)) :
    ∃ x₂, At s₂ x₂ ∧ ∀ b₂, x₂ = some b₂ → ∃ b, x = some b ∧ b₂.length < b.length ∧
      ∀ i : Input, i.bytes = b → (r.readTag i).1.1 = tag ∧
        ∃ i', slow (r.readTag i).2 = some (v, i') ∧ i'.bytes = b₂ := by
  obtain ⟨x₁, hs₁, htag⟩ := hc.readTag hs ht h0
  obtain ⟨x₂, hs₂, hvalue⟩ := href s₁ x₁ v s₂ hs₁ hv
  refine ⟨x₂, hs₂, fun b₂ hb₂ => ?_⟩
  obtain ⟨b₁, hb₁, hvalue⟩ := hvalue b₂ hb₂
  obtain ⟨b, hb, htag⟩ := htag b₁ hb₁
  have hboth : ∀ i : Input, i.bytes = b → (r.readTag i).1.1 = tag ∧
      ∃ i', slow (r.readTag i).2 = some (v, i') ∧ i'.bytes = b₂ := fun i hi =>
    ⟨(htag i hi).1, hvalue _ (htag i hi).2⟩
  refine ⟨b, hb, ?_, hboth⟩
  obtain ⟨hi, i', hslow, rfl⟩ := hboth ⟨b, false⟩ rfl
  have hlt := hr.tag_length ⟨b, false⟩ (hi ▸ h0)
  exact Nat.lt_of_le_of_lt (hlen _ _ _ hslow) hlt

namespace Descriptor

/-- A pointer past the end ends the loop. -/
theorem internalParse_over (hc : c.Lawful r At) (n : Nat) (m : M) {s : S} (hs : At s none) :
    d.internalParse c (n + 1) m s = .refused := by
  rw [internalParse, hc.done_over s hs, Outcome.ofOption_none, Outcome.refused_bind]

theorem internalParse_end (hc : c.Lawful r At) {n : Nat} {m : M} {s : S} (hs : At s (some [])) :
    ∃ s', d.internalParse c (n + 1) m s = .accepted (m, s') ∧ c.endedAtLimit s' = true := by
  obtain ⟨s', hdone, hended⟩ := hc.done_end s hs
  refine ⟨s', ?_, hended⟩
  rw [internalParse, hdone]
  rfl

/-- A loop that has ended makes no use of more turns. -/
theorem internalParse_mono {n k : Nat} {m : M} {s : S}
    (h : d.internalParse c n m s ≠ .outOfTurns) (hk : n ≤ k) :
    d.internalParse c k m s = d.internalParse c n m s := by
  induction n generalizing k m s with
  | zero => exact absurd rfl h
  | succ n ih =>
    obtain ⟨k, rfl⟩ := Nat.exists_eq_succ_of_ne_zero (Nat.ne_of_gt (Nat.zero_lt_of_lt hk))
    have hk := Nat.le_of_succ_le_succ hk
    rw [internalParse] at h ⊢
    rw [internalParse]
    refine Outcome.bind_congr fun p hdone => ?_
    rw [hdone, Outcome.accepted_bind] at h
    by_cases hend : p.1
    · rw [if_pos hend, if_pos hend]
    · rw [if_neg hend] at h
      rw [if_neg hend, if_neg hend]
      refine Outcome.bind_congr fun q ht => ?_
      rw [ht, Outcome.accepted_bind] at h
      cases hfield : d.field q.1 with
      | some f =>
        simp only [hfield] at h ⊢
        exact Outcome.bind_congr fun v hv => ih (by simpa [hv] using h) hk
      | none =>
        simp only [hfield] at h ⊢
        by_cases hlast : q.1 % 8 = 4 ∨ q.1 = 0
        · rw [if_pos hlast, if_pos hlast]
        · rw [if_neg hlast] at h
          rw [if_neg hlast, if_neg hlast]
          exact Outcome.bind_congr fun u hu => ih (by simpa [hu] using h) hk

/-- Each tag takes at least a byte, so with more turns than bytes the loop ends. -/
theorem internalParse_ends (hr : r.Lawful) (hd : d.Lawful) (hc : c.Lawful r At) {n : Nat}
    {s : S} {x : Option Bytes} (hs : At s x) (hx : ∀ b, x = some b → b.length < n + 1) (m : M) :
    d.internalParse c (n + 1) m s ≠ .outOfTurns := by
  induction n generalizing m s x with
  | zero =>
    cases x with
    | none => simp [internalParse_over hc 0 m hs]
    | some b =>
      obtain rfl := List.length_eq_zero_iff.mp (Nat.lt_one_iff.mp (hx b rfl))
      obtain ⟨s', he, -⟩ := internalParse_end hc (n := 0) (d := d) (m := m) hs
      simp [he]
  | succ n ih =>
    cases x with
    | none => simp [internalParse_over hc (n + 1) m hs]
    | some b =>
      by_cases hb : b = []
      · obtain ⟨s', he, -⟩ := internalParse_end hc (n := n + 1) (d := d) (m := m) (hb ▸ hs)
        simp [he]
      · obtain ⟨s', hdone, hs'⟩ := hc.done_more s b hs hb
        rw [internalParse, hdone, Outcome.ofOption_some, Outcome.accepted_bind,
          if_neg Bool.false_ne_true]
        have hnext {x₂ : Option Bytes} {P : Bytes → Bytes → Prop} (h : ∀ b₂, x₂ = some b₂ →
            ∃ b', some b = some b' ∧ b₂.length < b'.length ∧ P b' b₂) (b₂ : Bytes)
            (hb₂ : x₂ = some b₂) : b₂.length < n + 1 := by
          obtain ⟨b', hb', hlt, -⟩ := h b₂ hb₂
          obtain rfl := Option.some.inj hb'
          exact Nat.lt_of_lt_of_le hlt (Nat.le_of_lt_succ (hx b rfl))
        refine Outcome.read_ne_outOfTurns fun q ht => ?_
        cases hfield : d.field q.1 with
        | some f =>
          have h0 := hd.ne_zero_of_field hfield
          refine Outcome.read_ne_outOfTurns fun v hv => ?_
          obtain ⟨x₂, hs₂, h⟩ := hc.value hr (hc.read f.type) (hr.read_length f.type) hs' ht h0 hv
          exact ih hs₂ (hnext h) _
        | none =>
          by_cases hend : q.1 % 8 = 4 ∨ q.1 = 0
          · simp [hend]
          · simp only [if_neg hend]
            obtain ⟨hform, h0⟩ := not_or.mp hend
            refine Outcome.read_ne_outOfTurns fun u hu => ?_
            obtain ⟨x₂, hs₂, h⟩ := hc.value hr (hc.skip q.1 hform h0)
              (fun i u i' h => (hr.skip_length q.1 i u i' h).2) hs' ht h0 hu
            exact ih hs₂ (hnext h) _

theorem parseArray_ends (hr : r.Lawful) (hd : d.Lawful) (hc : c.Lawful r At) (bytes : Bytes) :
    d.parseArray c bytes ≠ .outOfTurns := by
  have hends := internalParse_ends hr hd hc (hc.start bytes) (n := bytes.length)
    (fun b hb => Option.some.inj hb ▸ Nat.lt_succ_self _) d.fresh
  refine Outcome.bind_ne_outOfTurns hends fun p _ => ?_
  split <;> simp

/-- What the pointer accepts, the streams accept. -/
theorem internalParse_sound (hr : r.Lawful) (hd : d.Lawful) (hc : c.Lawful r At) {n : Nat}
    {m m' : M} {s s' : S} {x : Option Bytes} (h : d.internalParse c n m s = .accepted (m', s'))
    (hended : c.endedAtLimit s' = true) (hs : At s x) :
    ∃ b, x = some b ∧ ∀ i : Input, i.bytes = b →
      d.mergePartial r n m i = .accepted (m', ⟨[], true⟩) := by
  induction n generalizing m s x with
  | zero => exact absurd h (by simp [internalParse])
  | succ n ih =>
    cases x with
    | none => exact absurd ((internalParse_over hc n m hs).symm.trans h) (by simp)
    | some b =>
      refine ⟨b, rfl, fun i hi => ?_⟩
      by_cases hb : b = []
      · obtain ⟨s₁, he, -⟩ := internalParse_end hc (n := n) (d := d) (m := m) (hb ▸ hs)
        obtain ⟨rfl, -⟩ := Prod.mk.inj (Outcome.accepted.inj (he.symm.trans h))
        obtain ⟨bytes, ended⟩ := i
        obtain rfl : bytes = [] := hi.trans hb
        rw [mergePartial, hr.atEnd]
        rfl
      · obtain ⟨s₁, hdone, hs₁⟩ := hc.done_more s b hs hb
        rw [internalParse, hdone, Outcome.ofOption_some, Outcome.accepted_bind,
          if_neg Bool.false_ne_true] at h
        obtain ⟨⟨tag, s₂⟩, ht, h⟩ := Outcome.bind_eq_accepted h
        have ht := Outcome.ofOption_eq_accepted ht
        rw [mergePartial, field_readTag hr hd]
        cases hfield : d.field tag with
        | some f =>
          simp only [hfield] at h
          obtain ⟨⟨v, s₃⟩, hv, h⟩ := Outcome.bind_eq_accepted h
          have hv := Outcome.ofOption_eq_accepted hv
          have h0 := hd.ne_zero_of_field hfield
          obtain ⟨x₃, hs₃, hvalue⟩ :=
            hc.value hr (hc.read f.type) (hr.read_length f.type) hs₁ ht h0 hv
          obtain ⟨b₃, hb₃, hrest⟩ := ih h hs₃
          obtain ⟨b', hb', -, hvalue⟩ := hvalue b₃ hb₃
          obtain ⟨htag, i₃, hread, hi₃⟩ := hvalue i (hi.trans (Option.some.inj hb'))
          simp only [htag, hfield, hread, Outcome.ofOption_some, Outcome.accepted_bind]
          exact hrest i₃ hi₃
        | none =>
          simp only [hfield] at h
          by_cases hend : tag % 8 = 4 ∨ tag = 0
          · rw [if_pos hend] at h
            obtain ⟨-, rfl⟩ := Prod.mk.inj (Outcome.accepted.inj h)
            exact absurd hended (by simp [hc.lastTag tag s₂ hend])
          · rw [if_neg hend] at h
            obtain ⟨hform, h0⟩ := not_or.mp hend
            obtain ⟨⟨u, s₃⟩, hu, h⟩ := Outcome.bind_eq_accepted h
            have hu := Outcome.ofOption_eq_accepted hu
            obtain ⟨x₃, hs₃, hvalue⟩ := hc.value hr (hc.skip tag hform h0)
              (fun i u i' h => (hr.skip_length tag i u i' h).2) hs₁ ht h0 hu
            obtain ⟨b₃, hb₃, hrest⟩ := ih h hs₃
            obtain ⟨b', hb', -, hvalue⟩ := hvalue b₃ hb₃
            obtain ⟨htag, i₃, hskip, hi₃⟩ := hvalue i (hi.trans (Option.some.inj hb'))
            simp only [htag, hfield, h0, if_false, hskip, Outcome.ofOption_some,
              Outcome.accepted_bind]
            exact hrest i₃ hi₃

theorem parseArray_sound (hr : r.Lawful) (hd : d.Lawful) (hc : c.Lawful r At) {bytes : Bytes}
    {m : M} (h : d.parseArray c bytes = .accepted m) : d.parse r bytes = .accepted m := by
  obtain ⟨⟨m', s'⟩, hloop, hended⟩ := Outcome.bind_eq_accepted h
  split at hended
  · rename_i hend
    obtain rfl := Outcome.accepted.inj hended
    obtain ⟨b, hb, hmerge⟩ := internalParse_sound hr hd hc hloop hend (hc.start bytes)
    rw [parse, hmerge ⟨bytes, false⟩ (Option.some.inj hb)]
    rfl
  · exact absurd hended (by simp)

end Descriptor

/-! ## Texts of written fields -/

/-- The tag of an item behind the pointer, and its value. -/
theorem Item.readTagAt (hd : d.Lawful) (hc : c.Lawful r At) {it : Item M U} (hof : it.Of r d)
    {b : Bytes} {s : S} (hlen : (it.write r ++ b).length + 16 < 2 ^ 31)
    (hs : At s (some (it.write r ++ b))) :
    ∃ tag s₁, c.readTag s = some (tag, s₁) ∧
      match it with
      | .field f v => tag = f.tag ∧
          if r.Accepts f.type v then ∃ s₂, c.read f.type s₁ = some (v, s₂) ∧ At s₂ (some b)
          else c.read f.type s₁ = none
      | .unknown u => tag = r.unknownTag u ∧
          ∃ s₂, c.unknownField tag s₁ = some (u, s₂) ∧ At s₂ (some b) := by
  cases it with
  | field f v =>
    obtain ⟨h1, h15⟩ := hd.number f hof
    obtain ⟨number, type, get, set⟩ := f
    cases type with
    | string =>
      obtain ⟨s₁, htag, hread⟩ := hc.string s number v b h1 h15 hlen hs
      exact ⟨_, s₁, htag, rfl, hread⟩
    | int32 =>
      obtain ⟨s₁, s₂, htag, hread, hs₂⟩ := hc.int32 s number v b h1 h15 hlen hs
      have hv : (v.signExtend 64).setWidth 32 = v := by
        ext i hi
        rw [BitVec.getElem_setWidth, BitVec.getLsbD_signExtend]
        simp [hi]
        omega
      refine ⟨_, s₁, htag, rfl, ?_⟩
      change if True then _ else _
      refine (if_pos trivial).mpr ⟨s₂, ?_, hs₂⟩
      rw [Context.read, hread, Option.map_some, hv]
  | unknown u =>
    obtain ⟨s₁, s₂, htag, hskip, hs₂⟩ := hc.unknown s u b hlen hs
    exact ⟨_, s₁, htag, rfl, s₂, hskip, hs₂⟩

namespace Descriptor

variable {its : List (Item M U)}

/-- The loop takes the items one after the other. -/
theorem internalParse_items (hr : r.Lawful) (hd : d.Lawful) (hc : c.Lawful r At)
    (hof : ∀ it ∈ its, it.Of r d) (hlen : (its.flatMap (Item.write r)).length + 16 < 2 ^ 31)
    {n : Nat} (hn : its.length < n) (m : M) {s : S}
    (hs : At s (some (its.flatMap (Item.write r)))) :
    ((d.internalParse c n m s).bind fun p =>
        if c.endedAtLimit p.2 then .accepted p.1 else .refused) =
      .ofOption (its.foldlM (Item.apply r d) m) := by
  induction its generalizing n m s with
  | nil =>
    obtain ⟨n, rfl⟩ := Nat.exists_eq_succ_of_ne_zero (Nat.ne_of_gt hn)
    obtain ⟨s', he, hended⟩ := internalParse_end hc (n := n) (d := d) (m := m) hs
    rw [he, Outcome.accepted_bind, if_pos hended]
    rfl
  | cons it its ih =>
    obtain ⟨n, rfl⟩ := Nat.exists_eq_succ_of_ne_zero (Nat.ne_of_gt (Nat.zero_lt_of_lt hn))
    rw [List.flatMap_cons] at hlen hs
    have hit := hof it List.mem_cons_self
    have hrest : (its.flatMap (Item.write r)).length + 16 < 2 ^ 31 := by
      rw [List.length_append] at hlen
      omega
    have hne : it.write r ++ its.flatMap (Item.write r) ≠ [] := by
      have hpos := Item.write_pos hr hd hit (by rw [List.length_append] at hlen; omega)
      exact List.append_ne_nil_of_left_ne_nil (List.length_pos_iff.mp hpos) _
    obtain ⟨s₀, hdone, hs₀⟩ := hc.done_more s _ hs hne
    obtain ⟨tag, s₁, htag, hvalue⟩ := Item.readTagAt hd hc hit hlen hs₀
    have ih := @ih (fun it hmem => hof it (List.mem_cons_of_mem _ hmem)) hrest n
      (Nat.lt_of_succ_lt_succ hn)
    rw [internalParse, List.foldlM_cons, hdone]
    simp only [Outcome.ofOption_some, Outcome.accepted_bind, Bool.false_eq_true, if_false, htag]
    cases it with
    | field f v =>
      obtain ⟨rfl, hread⟩ := hvalue
      simp only [hd.field_tag hit, Item.apply]
      by_cases hacc : r.Accepts f.type v
      · rw [if_pos hacc] at hread
        obtain ⟨s₂, hread, hs₂⟩ := hread
        simp only [hread, Outcome.ofOption_some, Outcome.accepted_bind, if_pos hacc]
        exact ih _ hs₂
      · rw [if_neg hacc] at hread
        simp only [hread, Outcome.ofOption_none, Outcome.refused_bind, if_neg hacc]
        rfl
    | unknown u =>
      obtain ⟨rfl, s₂, hskip, hs₂⟩ := hvalue
      have hnone : d.field (r.unknownTag u) = none := by
        cases hfield : d.field (r.unknownTag u) with
        | none => rfl
        | some f => exact absurd (hd.tag_of_field hfield) (hit f (mem_of_field hfield))
      have hend : ¬ (r.unknownTag u % 8 = 4 ∨ r.unknownTag u = 0) :=
        not_or.mpr ⟨hc.unknown_form u, hr.unknown_tag u⟩
      simp only [hnone, if_neg hend, hskip, Outcome.ofOption_some, Outcome.accepted_bind,
        Item.apply]
      exact ih _ hs₂

/-- A message is read back exactly if its strings pass the check. -/
theorem parseArray_serialize (hr : r.Lawful) (hd : d.Lawful) (hc : c.Lawful r At) {m : M}
    (hu : d.UnknownOk r m) (hlen : (d.serialize r m).length + 16 < 2 ^ 31) :
    d.parseArray c (d.serialize r m) =
      if d.StringsOk r m then .accepted m else .refused := by
  rw [serialize_eq] at hlen ⊢
  have hle := length_le_flatMap hr hd (items_of hu) (by omega)
  rw [parseArray, internalParse_items hr hd hc (items_of hu) hlen (Nat.lt_succ_of_le hle) _
    (hc.start _), foldlM_items hd, ← mergeFrom_eq hd, mergeFrom_fresh hd]
  split <;> rfl

end Descriptor

end Reading

end Wire
