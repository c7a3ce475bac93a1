import RocketmqProxy.Lib.Wire

/-!
# What is written is read back

The loop reads a text of written fields as the fold of their values over the message it
started with, whatever their order and however often a field is repeated.
-/

namespace Wire

variable {M U : Type} {r : Runtime U} {d : Descriptor M U}

/-! ## Tags -/

theorem FieldType.wireType_lt (t : FieldType) : t.wireType < 8 := by
  cases t <;> decide

namespace Descriptor

theorem Lawful.tag_le (hd : d.Lawful) {f : Field M} (hf : f ∈ d.fields) : f.tag ≤ 127 := by
  have := hd.number f hf
  have := f.type.wireType_lt
  rw [Field.tag]
  omega

theorem Lawful.eq_of_number (hd : d.Lawful) {f g : Field M} (hf : f ∈ d.fields)
    (hg : g ∈ d.fields) (h : f.number = g.number) : f = g :=
  List.inj_on_of_nodup_map hd.nodup hf hg h

/-- A tag of a known field announces it. -/
theorem Lawful.field_tag (hd : d.Lawful) {f : Field M} (hf : f ∈ d.fields) :
    d.field f.tag = some f := by
  have hnumber : f.tag / 8 = f.number := by
    have := f.type.wireType_lt
    rw [Field.tag]
    omega
  cases hfind : d.field f.tag with
  | none =>
    have := List.find?_eq_none.mp hfind f hf
    exact absurd this (by simp [hnumber])
  | some g =>
    have hg := List.find?_some hfind
    simp only [decide_eq_true_eq, hnumber] at hg
    rw [hd.eq_of_number (List.mem_of_find?_eq_some hfind) hf hg.1]

/-- Another small tag announces none. -/
theorem field_eq_none (hd : d.Lawful) {tag : Nat} (htag : tag ≤ 127)
    (h : ∀ f ∈ d.fields, f.tag ≠ tag) : d.field tag = none := by
  refine List.find?_eq_none.mpr fun f hf => ?_
  have := hd.tag_le hf
  have := h f hf
  simp only [decide_eq_true_eq, not_and]
  omega

theorem mem_of_field {tag : Nat} {f : Field M} (h : d.field tag = some f) : f ∈ d.fields :=
  List.mem_of_find?_eq_some h

theorem Lawful.ne_zero_of_field (hd : d.Lawful) {tag : Nat} {f : Field M}
    (h : d.field tag = some f) : tag ≠ 0 := by
  have hf := List.find?_some h
  have := hd.number f (mem_of_field h)
  simp only [decide_eq_true_eq] at hf
  omega

/-- The tag of a field that the loop does not know is not one of the message's. -/
theorem unknown_of_tag (hr : r.Lawful) (hd : d.Lawful) {i : Input}
    (h : (if (r.readTag i).1.2 then d.field (r.readTag i).1.1 else none) = none)
    (h0 : (r.readTag i).1.1 ≠ 0) : ∀ f ∈ d.fields, f.tag ≠ (r.readTag i).1.1 := by
  rintro f hf he
  have hcutoff := hr.cutoff i
  split at h
  · rw [← he, hd.field_tag hf] at h
    exact absurd h (by simp)
  · rename_i hsmall
    rw [if_neg hsmall] at hcutoff
    have := hd.tag_le hf
    omega

end Descriptor

/-! ## Texts of written fields -/

/-- A field with the value that is written, or an unknown field. -/
inductive Item (M U : Type)
  | field (f : Field M) (v : f.type.Val)
  | unknown (u : U)

namespace Item

def write (r : Runtime U) : Item M U → Bytes
  | .field f v => r.write f.number f.type v
  | .unknown u => r.writeUnknown u

/-- What the loop makes of the message. -/
def apply (r : Runtime U) (d : Descriptor M U) (m : M) : Item M U → Option M
  | .field f v => if r.Accepts f.type v then some (f.set v m) else none
  | .unknown u => some (d.addUnknown [u] m)

/-- The field is one of the message's, or has a tag that none of them has. -/
def Of (r : Runtime U) (d : Descriptor M U) : Item M U → Prop
  | .field f _ => f ∈ d.fields
  | .unknown u => ∀ f ∈ d.fields, f.tag ≠ r.unknownTag u

/-- The tag of an item, and its value behind it. -/
theorem readTag (hr : r.Lawful) (hd : d.Lawful) {it : Item M U} (hof : it.Of r d) {rest : Bytes}
    {e : Bool} (hlen : (it.write r ++ rest).length < 2 ^ 31) :
    ∃ tag small i, r.readTag ⟨it.write r ++ rest, e⟩ = ((tag, small), i) ∧ tag ≠ 0 ∧
      match it with
      | .field f v => tag = f.tag ∧ small = true ∧
          r.read f.type i = if r.Accepts f.type v then some (v, ⟨rest, false⟩) else none
      | .unknown u => tag = r.unknownTag u ∧ r.skipField tag i = some (u, ⟨rest, false⟩) := by
  cases it with
  | field f v =>
    obtain ⟨h1, h15⟩ := hd.number f hof
    obtain ⟨number, type, get, set⟩ := f
    have hpos : number ≠ 0 := Nat.ne_of_gt h1
    cases type with
    | string =>
      obtain ⟨i, htag, hread⟩ := hr.string number v rest e h1 h15 hlen
      refine ⟨_, _, i, htag, by omega, rfl, rfl, ?_⟩
      rw [Runtime.read, hread]
      rfl
    | int32 =>
      obtain ⟨i, htag, hread⟩ := hr.int32 number v rest e h1 h15 hlen
      exact ⟨_, _, i, htag, by omega, rfl, rfl, hread⟩
  | unknown u =>
    obtain ⟨small, i, htag, hskip⟩ := hr.unknown u rest e hlen
    exact ⟨_, small, i, htag, hr.unknown_tag u, rfl, hskip⟩

/-- An item takes at least a byte. -/
theorem write_pos (hr : r.Lawful) (hd : d.Lawful) {it : Item M U} (hof : it.Of r d)
    (hlen : (it.write r).length < 2 ^ 31) : 0 < (it.write r).length := by
  rw [List.length_pos_iff]
  intro hnil
  rw [← List.append_nil (it.write r)] at hlen
  obtain ⟨tag, small, i, htag, h0, -⟩ := readTag hr hd hof (e := false) hlen
  rw [List.append_nil, hnil, hr.atEnd] at htag
  exact h0 (Prod.mk.inj (Prod.mk.inj htag).1).1.symm

end Item

namespace Descriptor

variable {its : List (Item M U)}

/-- The loop takes the items one after the other. -/
theorem mergePartial_items (hr : r.Lawful) (hd : d.Lawful) (hof : ∀ it ∈ its, it.Of r d)
    (hlen : (its.flatMap (Item.write r)).length < 2 ^ 31) {n : Nat} (hn : its.length < n)
    (m : M) (e : Bool) :
    d.mergePartial r n m ⟨its.flatMap (Item.write r), e⟩ =
      .ofOption ((its.foldlM (Item.apply r d) m).map fun m => (m, ⟨[], true⟩)) := by
  induction its generalizing n m e with
  | nil =>
    obtain ⟨n, rfl⟩ := Nat.exists_eq_succ_of_ne_zero (Nat.ne_of_gt hn)
    rw [List.flatMap_nil, mergePartial, hr.atEnd]
    rfl
  | cons it its ih =>
    obtain ⟨n, rfl⟩ := Nat.exists_eq_succ_of_ne_zero (Nat.ne_of_gt (Nat.zero_lt_of_lt hn))
    rw [List.flatMap_cons] at hlen ⊢
    have hit := hof it List.mem_cons_self
    obtain ⟨tag, small, i, htag, h0, hvalue⟩ := Item.readTag hr hd hit (e := e) hlen
    have hrest : (its.flatMap (Item.write r)).length < 2 ^ 31 := by
      rw [List.length_append] at hlen
      omega
    have ih := @ih (fun it hmem => hof it (List.mem_cons_of_mem _ hmem)) hrest n
      (Nat.lt_of_succ_lt_succ hn)
    rw [mergePartial, List.foldlM_cons, htag]
    cases it with
    | field f v =>
      obtain ⟨rfl, rfl, hread⟩ := hvalue
      simp only [if_true, hd.field_tag hit, hread, Item.apply]
      by_cases hacc : r.Accepts f.type v
      · rw [if_pos hacc, if_pos hacc, Outcome.ofOption_some, Outcome.accepted_bind]
        exact ih _ _
      · rw [if_neg hacc, if_neg hacc]
        rfl
    | unknown u =>
      obtain ⟨rfl, hskip⟩ := hvalue
      have hnone : (if small = true then d.field (r.unknownTag u) else none) = none := by
        have hcutoff := hr.cutoff
          ⟨(Item.unknown u : Item M U).write r ++ its.flatMap (Item.write r), e⟩
        rw [htag] at hcutoff
        split
        · rename_i hsmall
          rw [if_pos hsmall] at hcutoff
          exact field_eq_none hd hcutoff hit
        · rfl
      simp only [hnone, h0, if_false, hskip, Outcome.ofOption_some, Outcome.accepted_bind,
        Item.apply]
      exact ih _ _

theorem length_le_flatMap (hr : r.Lawful) (hd : d.Lawful) (hof : ∀ it ∈ its, it.Of r d)
    (hlen : (its.flatMap (Item.write r)).length < 2 ^ 31) :
    its.length ≤ (its.flatMap (Item.write r)).length := by
  induction its with
  | nil => exact Nat.le_refl 0
  | cons it its ih =>
    rw [List.flatMap_cons, List.length_append] at hlen ⊢
    have hpos := Item.write_pos hr hd (hof it List.mem_cons_self) (by omega)
    have hle := ih (fun it hmem => hof it (List.mem_cons_of_mem _ hmem)) (by omega)
    rw [List.length_cons]
    omega

/-- A text of written fields is read as the fold of their values. -/
theorem parse_items (hr : r.Lawful) (hd : d.Lawful) (hof : ∀ it ∈ its, it.Of r d)
    (hlen : (its.flatMap (Item.write r)).length < 2 ^ 31) :
    d.parse r (its.flatMap (Item.write r)) =
      .ofOption (its.foldlM (Item.apply r d) d.fresh) := by
  have hle := length_le_flatMap hr hd hof hlen
  rw [parse, mergePartial_items hr hd hof hlen (Nat.lt_succ_of_le hle)]
  cases its.foldlM (Item.apply r d) d.fresh <;> rfl

/-! ## A message as a text -/

/-- What is written of a message. -/
def items (d : Descriptor M U) (m : M) : List (Item M U) :=
  (d.fields.filter fun f => ¬ f.IsDefault m).map (fun f => .field f (f.get m)) ++
    (d.unknown m).map .unknown

theorem serialize_eq (m : M) : d.serialize r m = (d.items m).flatMap (Item.write r) := by
  rw [serialize, items, List.flatMap_append, List.flatMap_map, List.flatMap_map]
  congr 1
  induction d.fields with
  | nil => rfl
  | cons f fs ih =>
    rw [List.flatMap_cons, ih, List.filter_cons]
    by_cases hf : f.IsDefault m <;> simp [hf, Item.write]

/-- The strings of the message pass the check that the parser makes. -/
def StringsOk (r : Runtime U) (d : Descriptor M U) (m : M) : Prop :=
  ∀ f ∈ d.fields, f.IsDefault m ∨ r.Accepts f.type (f.get m)

instance (m : M) : Decidable (d.StringsOk r m) :=
  inferInstanceAs (Decidable (∀ f ∈ d.fields, _))

/-- No unknown field of the message has the tag of a known one. -/
def UnknownOk (r : Runtime U) (d : Descriptor M U) (m : M) : Prop :=
  ∀ u ∈ d.unknown m, ∀ f ∈ d.fields, f.tag ≠ r.unknownTag u

theorem items_of {m : M} (h : d.UnknownOk r m) : ∀ it ∈ d.items m, it.Of r d := by
  intro it hit
  rcases List.mem_append.mp hit with hit | hit
  · obtain ⟨f, hf, rfl⟩ := List.mem_map.mp hit
    exact (List.mem_filter.mp hf).1
  · obtain ⟨u, hu, rfl⟩ := List.mem_map.mp hit
    exact h u hu

/-! ## Merging -/

variable {m b : M} {fs : List (Field M)}

theorem get_mergeField (hd : d.Lawful) {f g : Field M} (hf : f ∈ d.fields) (hg : g ∈ d.fields) :
    g.get (mergeField m b f) =
      if f.number = g.number ∧ ¬ g.IsDefault m then g.get m else g.get b := by
  rw [mergeField]
  by_cases he : f.number = g.number
  · obtain rfl := hd.eq_of_number hf hg he
    by_cases hdef : f.IsDefault m
    · rw [if_pos hdef, if_neg (by simp [hdef])]
    · rw [if_neg hdef, if_pos ⟨rfl, hdef⟩, hd.get_set f hf]
  · rw [if_neg (c := _ ∧ _) (by simp [he])]
    split
    · rfl
    · exact hd.get_set_ne f hf g hg he _ _

theorem get_mergeFields (hd : d.Lawful) (hfs : ∀ f ∈ fs, f ∈ d.fields) {g : Field M}
    (hg : g ∈ d.fields) : g.get (fs.foldl (mergeField m) b) =
      if (∃ f ∈ fs, f.number = g.number) ∧ ¬ g.IsDefault m then g.get m else g.get b := by
  induction fs generalizing b with
  | nil => simp
  | cons f fs ih =>
    have hrest : ∀ f ∈ fs, f ∈ d.fields := fun f hf => hfs f (List.mem_cons_of_mem _ hf)
    rw [List.foldl_cons, ih hrest, get_mergeField hd (hfs f List.mem_cons_self) hg]
    by_cases hdef : g.IsDefault m
    · simp [hdef]
    · by_cases he : f.number = g.number <;> simp [hdef, he]

theorem unknown_mergeFields (hd : d.Lawful) (hfs : ∀ f ∈ fs, f ∈ d.fields) :
    d.unknown (fs.foldl (mergeField m) b) = d.unknown b := by
  induction fs generalizing b with
  | nil => rfl
  | cons f fs ih =>
    rw [List.foldl_cons, ih fun f hf => hfs f (List.mem_cons_of_mem _ hf), mergeField]
    split
    · rfl
    · exact hd.unknown_set f (hfs f List.mem_cons_self) _ _

theorem foldlM_fields (fs : List (Field M)) (m b : M) :
    ((fs.filter fun f => ¬ f.IsDefault m).map fun f => Item.field f (f.get m)).foldlM
        (Item.apply r d) b =
      if ∀ f ∈ fs, f.IsDefault m ∨ r.Accepts f.type (f.get m) then
        some (fs.foldl (mergeField m) b)
      else none := by
  induction fs generalizing b with
  | nil => rfl
  | cons f fs ih =>
    simp only [decide_not] at ih
    rw [List.filter_cons, List.foldl_cons]
    by_cases hdef : f.IsDefault m
    · have hmerge : mergeField m b f = b := if_pos hdef
      simp [hdef, hmerge, ih]
    · have hmerge : mergeField m b f = f.set (f.get m) b := if_neg hdef
      by_cases hacc : r.Accepts f.type (f.get m)
      · simp [hdef, hacc, hmerge, ih, Item.apply]
      · simp [hdef, hacc, Item.apply]

theorem addUnknown_addUnknown (hd : d.Lawful) (us vs : List U) (m : M) :
    d.addUnknown vs (d.addUnknown us m) = d.addUnknown (us ++ vs) m := by
  refine hd.ext _ _ (fun f hf => ?_) ?_
  · simp only [addUnknown, hd.get_setUnknown f hf]
  · simp only [addUnknown, hd.unknown_setUnknown, List.append_assoc]

theorem addUnknown_nil (hd : d.Lawful) (m : M) : d.addUnknown [] m = m := by
  refine hd.ext _ _ (fun f hf => ?_) ?_
  · rw [addUnknown, hd.get_setUnknown f hf]
  · rw [addUnknown, hd.unknown_setUnknown, List.append_nil]

theorem foldlM_unknown (hd : d.Lawful) (us : List U) :
    (us.map Item.unknown).foldlM (Item.apply r d) b = some (d.addUnknown us b) := by
  induction us generalizing b with
  | nil => exact congrArg some (addUnknown_nil hd b).symm
  | cons u us ih =>
    rw [List.map_cons, List.foldlM_cons, Item.apply]
    simp only [Option.bind_eq_bind, Option.bind_some]
    rw [ih, addUnknown_addUnknown hd]
    rfl

/-- The loop over the text of a message, whatever it has read before. -/
theorem foldlM_items (hd : d.Lawful) :
    (d.items m).foldlM (Item.apply r d) b =
      if d.StringsOk r m then some (d.addUnknown (d.unknown m) (d.fields.foldl (mergeField m) b))
      else none := by
  rw [items, List.foldlM_append, foldlM_fields]
  by_cases hs : ∀ f ∈ d.fields, f.IsDefault m ∨ r.Accepts f.type (f.get m)
  · rw [if_pos hs, if_pos (c := d.StringsOk r m) hs]
    exact foldlM_unknown hd _
  · rw [if_neg hs, if_neg (c := d.StringsOk r m) hs]
    rfl

theorem mem_byType {f : Field M} : f ∈ d.byType ↔ f ∈ d.fields := by
  rw [byType, List.mem_append, List.mem_filter, List.mem_filter]
  cases ht : f.type <;> simp

theorem mergeFrom_eq (hd : d.Lawful) :
    d.mergeFrom b m = d.addUnknown (d.unknown m) (d.fields.foldl (mergeField m) b) := by
  have hby : ∀ f ∈ d.byType, f ∈ d.fields := fun f hf => mem_byType.mp hf
  refine hd.ext _ _ (fun g hg => ?_) ?_
  · simp only [mergeFrom, addUnknown, hd.get_setUnknown g hg, get_mergeFields hd hby hg,
      get_mergeFields hd (fun _ hf => hf) hg, mem_byType]
  · simp only [mergeFrom, addUnknown, unknown_mergeFields hd hby,
      unknown_mergeFields hd (fun _ hf => hf), hd.unknown_setUnknown]

/-- Merging into a fresh object is copying. -/
theorem mergeFrom_fresh (hd : d.Lawful) : d.mergeFrom d.fresh m = m := by
  rw [mergeFrom_eq hd]
  refine hd.ext _ _ (fun g hg => ?_) ?_
  · rw [addUnknown, hd.get_setUnknown g hg, get_mergeFields hd (fun _ hf => hf) hg]
    by_cases hdef : g.IsDefault m
    · rw [if_neg (by simp [hdef]), hd.get_fresh g hg, hdef]
    · rw [if_pos ⟨⟨g, hg, rfl⟩, hdef⟩]
  · rw [addUnknown, hd.unknown_setUnknown, unknown_mergeFields hd fun _ hf => hf,
      hd.unknown_fresh, List.nil_append]

/-! ## Round trips -/

/-- Reading the text of a message into another one is merging. -/
theorem mergePartial_serialize (hr : r.Lawful) (hd : d.Lawful) (hu : d.UnknownOk r m)
    (hlen : (d.serialize r m).length < 2 ^ 31) {n : Nat} (hn : (d.serialize r m).length < n)
    (e : Bool) : d.mergePartial r n b ⟨d.serialize r m, e⟩ =
      if d.StringsOk r m then .accepted (d.mergeFrom b m, ⟨[], true⟩) else .refused := by
  rw [serialize_eq] at hlen hn ⊢
  have hle := length_le_flatMap hr hd (items_of hu) hlen
  rw [mergePartial_items hr hd (items_of hu) hlen (Nat.lt_of_le_of_lt hle hn), foldlM_items hd,
    ← mergeFrom_eq hd]
  split <;> rfl

/-- A message is read back exactly if its strings pass the check. -/
theorem parse_serialize (hr : r.Lawful) (hd : d.Lawful) (hu : d.UnknownOk r m)
    (hlen : (d.serialize r m).length < 2 ^ 31) :
    d.parse r (d.serialize r m) = if d.StringsOk r m then .accepted m else .refused := by
  rw [parse, mergePartial_serialize hr hd hu hlen (Nat.lt_succ_self _), mergeFrom_fresh hd]
  split <;> rfl

/-- One text after the other is the merge of the two messages. -/
theorem parse_append (hr : r.Lawful) (hd : d.Lawful) {m' : M} (hu : d.UnknownOk r m)
    (hu' : d.UnknownOk r m') (hlen : (d.serialize r m ++ d.serialize r m').length < 2 ^ 31) :
    d.parse r (d.serialize r m ++ d.serialize r m') =
      if d.StringsOk r m ∧ d.StringsOk r m' then .accepted (d.mergeFrom m m') else .refused := by
  rw [serialize_eq, serialize_eq, ← List.flatMap_append] at hlen ⊢
  have hof : ∀ it ∈ d.items m ++ d.items m', it.Of r d := fun it hit =>
    (List.mem_append.mp hit).elim (items_of hu it) (items_of hu' it)
  rw [parse_items hr hd hof hlen, List.foldlM_append, foldlM_items hd, ← mergeFrom_eq hd,
    mergeFrom_fresh hd]
  by_cases hs : d.StringsOk r m
  · rw [if_pos hs]
    simp only [hs, true_and, Option.bind_eq_bind, Option.bind_some]
    rw [foldlM_items hd, ← mergeFrom_eq hd]
    split <;> rfl
  · rw [if_neg hs, if_neg fun h => hs h.1]
    rfl

/-! ## What is accepted -/

theorem accepts_of_read {t : FieldType} {v : t.Val} {i i' : Input}
    (h : r.read t i = some (v, i')) : r.Accepts t v := by
  cases t with
  | string =>
    obtain ⟨p, -, hp⟩ := Option.bind_eq_some_iff.mp h
    split at hp
    · rename_i hutf8
      obtain rfl := Option.some.inj hp
      exact hutf8
    · exact absurd hp (by simp)
  | int32 => trivial

theorem StringsOk.set (hd : d.Lawful) (h : d.StringsOk r m) {f : Field M} (hf : f ∈ d.fields)
    {v : f.type.Val} (hv : r.Accepts f.type v) : d.StringsOk r (f.set v m) := by
  intro g hg
  by_cases he : f.number = g.number
  · obtain rfl := hd.eq_of_number hf hg he
    rw [hd.get_set f hf]
    exact .inr hv
  · rw [Field.IsDefault, hd.get_set_ne f hf g hg he]
    exact h g hg

theorem StringsOk.addUnknown (hd : d.Lawful) (h : d.StringsOk r m) (us : List U) :
    d.StringsOk r (d.addUnknown us m) := by
  intro g hg
  rw [Field.IsDefault, Descriptor.addUnknown, hd.get_setUnknown g hg]
  exact h g hg

theorem UnknownOk.set (hd : d.Lawful) (h : d.UnknownOk r m) {f : Field M} (hf : f ∈ d.fields)
    (v : f.type.Val) : d.UnknownOk r (f.set v m) := by
  intro u hu
  rw [hd.unknown_set f hf] at hu
  exact h u hu

theorem UnknownOk.addUnknown (hd : d.Lawful) (h : d.UnknownOk r m) {us : List U}
    (hus : ∀ u ∈ us, ∀ f ∈ d.fields, f.tag ≠ r.unknownTag u) :
    d.UnknownOk r (d.addUnknown us m) := by
  intro u hu
  rw [Descriptor.addUnknown, hd.unknown_setUnknown] at hu
  exact (List.mem_append.mp hu).elim (h u) (hus u)

theorem unknownOk_fresh (hd : d.Lawful) : d.UnknownOk r d.fresh := by
  intro u hu
  rw [hd.unknown_fresh] at hu
  exact absurd hu List.not_mem_nil

theorem UnknownOk.mergeFrom (hd : d.Lawful) (hb : d.UnknownOk r b) (h : d.UnknownOk r m) :
    d.UnknownOk r (d.mergeFrom b m) := by
  have hfields : d.UnknownOk r (d.fields.foldl (mergeField m) b) := by
    rw [UnknownOk, unknown_mergeFields hd fun _ hf => hf]
    exact hb
  rw [mergeFrom_eq hd]
  exact hfields.addUnknown hd h

/-- What every value and every unknown field keeps, the loop keeps. -/
theorem mergePartial_keeps (hr : r.Lawful) (hd : d.Lawful) {P : M → Prop}
    (hset : ∀ f ∈ d.fields, ∀ v, r.Accepts f.type v → ∀ m, P m → P (f.set v m))
    (hadd : ∀ u, (∀ f ∈ d.fields, f.tag ≠ r.unknownTag u) → ∀ m, P m → P (d.addUnknown [u] m))
    {n : Nat} {m' : M} {i i' : Input} (h : d.mergePartial r n m i = .accepted (m', i'))
    (hm : P m) : P m' := by
  induction n generalizing m i with
  | zero => exact absurd h (by simp [mergePartial])
  | succ n ih =>
    rw [mergePartial] at h
    generalize hfield : (if (r.readTag i).1.2 then d.field (r.readTag i).1.1 else none) = field
      at h
    cases field with
    | some f =>
      obtain ⟨⟨v, i₁⟩, hread, h⟩ := Outcome.bind_eq_accepted h
      have hread := Outcome.ofOption_eq_accepted hread
      have hf := mem_of_field (Option.ite_none_right_eq_some.mp hfield).2
      exact ih h (hset f hf v (accepts_of_read hread) m hm)
    | none =>
      by_cases h0 : (r.readTag i).1.1 = 0
      · simp only [h0, if_true] at h
        obtain ⟨rfl, -⟩ := Prod.mk.inj (Outcome.accepted.inj h)
        exact hm
      · simp only [h0, if_false] at h
        obtain ⟨⟨u, i₁⟩, hskip, h⟩ := Outcome.bind_eq_accepted h
        have htag := (hr.skip_length _ _ _ _ (Outcome.ofOption_eq_accepted hskip)).1
        refine ih h (hadd u (fun f hf => ?_) m hm)
        rw [htag]
        exact unknown_of_tag hr hd hfield h0 f hf

theorem mergePartial_stringsOk (hr : r.Lawful) (hd : d.Lawful) {n : Nat} {m' : M} {i i' : Input}
    (h : d.mergePartial r n m i = .accepted (m', i')) (hs : d.StringsOk r m) :
    d.StringsOk r m' :=
  mergePartial_keeps hr hd (fun _ hf _ hv _ hs => hs.set hd hf hv)
    (fun u _ _ hs => hs.addUnknown hd [u]) h hs

theorem mergePartial_unknownOk (hr : r.Lawful) (hd : d.Lawful) {n : Nat} {m' : M} {i i' : Input}
    (h : d.mergePartial r n m i = .accepted (m', i')) (hu : d.UnknownOk r m) :
    d.UnknownOk r m' := by
  refine mergePartial_keeps hr hd (fun _ hf v _ _ hu => hu.set hd hf v) (fun u htag m hu => ?_) h hu
  refine hu.addUnknown hd fun u' hu' => ?_
  rw [List.mem_singleton.mp hu']
  exact htag

theorem parse_ok (hr : r.Lawful) (hd : d.Lawful) {bytes : Bytes}
    (h : d.parse r bytes = .accepted m) : d.StringsOk r m ∧ d.UnknownOk r m := by
  obtain ⟨⟨m', i⟩, hloop, h⟩ := Outcome.bind_eq_accepted h
  split at h
  · obtain rfl := Outcome.accepted.inj h
    exact ⟨mergePartial_stringsOk hr hd hloop fun f hf => .inl (hd.get_fresh f hf),
      mergePartial_unknownOk hr hd hloop (unknownOk_fresh hd)⟩
  · exact absurd h (by simp)

/-! ## Turns -/

/-- A loop that has ended makes no use of more turns. -/
theorem mergePartial_mono {n k : Nat} {m : M} {i : Input}
    (h : d.mergePartial r n m i ≠ .outOfTurns) (hk : n ≤ k) :
    d.mergePartial r k m i = d.mergePartial r n m i := by
  induction n generalizing k m i with
  | zero => exact absurd rfl h
  | succ n ih =>
    obtain ⟨k, rfl⟩ := Nat.exists_eq_succ_of_ne_zero (Nat.ne_of_gt (Nat.zero_lt_of_lt hk))
    have hk := Nat.le_of_succ_le_succ hk
    rw [mergePartial] at h ⊢
    rw [mergePartial]
    generalize (if (r.readTag i).1.2 then d.field (r.readTag i).1.1 else none) = field at h ⊢
    cases field with
    | some f => exact Outcome.bind_congr fun v hread => ih (by simpa [hread] using h) hk
    | none =>
      by_cases h0 : (r.readTag i).1.1 = 0
      · simp only [h0, if_true]
      · simp only [h0, if_false] at h ⊢
        exact Outcome.bind_congr fun u hskip => ih (by simpa [hskip] using h) hk

/-- A tag takes at least a byte, so with more turns than bytes the loop ends. -/
theorem mergePartial_ends (hr : r.Lawful) (hd : d.Lawful) {n : Nat} {i : Input}
    (hn : i.bytes.length < n) (m : M) : d.mergePartial r n m i ≠ .outOfTurns := by
  induction n generalizing m i with
  | zero => exact absurd hn (Nat.not_lt_zero _)
  | succ n ih =>
    rw [mergePartial]
    generalize hfield : (if (r.readTag i).1.2 then d.field (r.readTag i).1.1 else none) = field
    cases field with
    | some f =>
      have h0 := hd.ne_zero_of_field (Option.ite_none_right_eq_some.mp hfield).2
      have hlt := hr.tag_length i h0
      refine Outcome.read_ne_outOfTurns fun v hread => ih ?_ _
      have := hr.read_length _ _ _ _ hread
      omega
    | none =>
      by_cases h0 : (r.readTag i).1.1 = 0
      · simp [h0]
      · simp only [h0, if_false]
        have hlt := hr.tag_length i h0
        refine Outcome.read_ne_outOfTurns fun u hskip => ih ?_ _
        have := (hr.skip_length _ _ _ _ hskip).2
        omega

theorem parse_ends (hr : r.Lawful) (hd : d.Lawful) (bytes : Bytes) :
    d.parse r bytes ≠ .outOfTurns := by
  have hends := mergePartial_ends hr hd (i := ⟨bytes, false⟩) (Nat.lt_succ_self _) d.fresh
  refine Outcome.bind_ne_outOfTurns hends fun p _ => ?_
  split <;> simp

/-! ## Sizes -/

theorem byType_perm : d.byType.Perm d.fields := by
  have hint : d.fields.filter (fun f => f.type = .int32) =
      d.fields.filter fun f => ! decide (f.type = .string) := by
    refine List.filter_congr fun f _ => ?_
    cases f.type <;> rfl
  rw [byType, hint]
  exact List.filter_append_perm _ _

/-- The size that is computed is the size that is written. -/
theorem byteSize_eq (hr : r.Lawful) (hd : d.Lawful) :
    d.byteSize r m = (d.serialize r m).length := by
  have hwrite : ∀ f ∈ d.fields, (r.write f.number f.type (f.get m)).length =
      1 + r.size f.type (f.get m) := by
    intro f hf
    obtain ⟨h1, h15⟩ := hd.number f hf
    obtain ⟨number, type, get, set⟩ := f
    cases type with
    | string => exact hr.string_size number _ h1 h15
    | int32 => exact hr.int32_size number _ h1 h15
  have hunknown : (d.unknown m).map (fun u => (r.writeUnknown u).length) =
      (d.unknown m).map r.unknownSize :=
    List.map_congr_left fun u _ => hr.unknown_size u
  have hfields : (d.fields.map fun f =>
        (if f.IsDefault m then [] else r.write f.number f.type (f.get m)).length) =
      d.fields.map fun f => if f.IsDefault m then 0 else 1 + r.size f.type (f.get m) := by
    refine List.map_congr_left fun f hf => ?_
    split
    · rfl
    · exact hwrite f hf
  rw [byteSize, serialize, List.length_append, List.length_flatMap, List.length_flatMap, hunknown,
    hfields, Nat.add_comm, (byType_perm.map _).sum_eq]

end Descriptor
end Wire
