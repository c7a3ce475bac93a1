import RocketmqProxy.Lib.Wire

/-!
# Writing at a pointer

A second writer puts the fields of a message into the memory behind a pointer, and moves the
pointer on.
-/

namespace Wire

variable {M U : Type}

abbrev Memory := Nat → UInt8

/-- A memory and the place in it where the next byte is put. -/
structure Place where
  mem : Memory
  target : Nat

/-- The bytes stand at the target, which moves behind them. -/
def Place.put (p : Place) (bytes : Bytes) : Place where
  mem a := if p.target ≤ a then bytes[a - p.target]?.getD (p.mem a) else p.mem a
  target := p.target + bytes.length

/-- So many bytes from an address on. -/
def load (mem : Memory) (a n : Nat) : Bytes := (List.range n).map fun i => mem (a + i)

structure ArrayWriter (U : Type) where
  writeString : Nat → Bytes → Place → Place
  writeInt32 : Nat → BitVec 32 → Place → Place
  writeUnknown : List U → Place → Place

def ArrayWriter.write (w : ArrayWriter U) (number : Nat) : (t : FieldType) → t.Val → Place → Place
  | .string, v, p => w.writeString number v p
  | .int32, v, p => w.writeInt32 number v p

def Descriptor.serializeToArray (w : ArrayWriter U) (d : Descriptor M U) (m : M) (p : Place) :
    Place :=
  let p := d.fields.foldl
    (fun p f => if f.IsDefault m then p else w.write f.number f.type (f.get m) p) p
  if (d.unknown m).isEmpty then p else w.writeUnknown (d.unknown m) p

/-- At the pointer is written what the streams write. -/
structure ArrayWriter.Lawful (w : ArrayWriter U) (r : Runtime U) : Prop where
  string : ∀ number v p, w.writeString number v p = p.put (r.writeString number v)
  int32 : ∀ number v p, w.writeInt32 number v p = p.put (r.writeInt32 number v)
  unknown : ∀ us p, w.writeUnknown us p = p.put (us.flatMap r.writeUnknown)

section Writing

variable {r : Runtime U} {d : Descriptor M U} {w : ArrayWriter U}

theorem Place.mem_put_of_lt (p : Place) (bytes : Bytes) {a : Nat} (ha : a < p.target) :
    (p.put bytes).mem a = p.mem a := if_neg (Nat.not_le_of_lt ha)

theorem Place.mem_put_add (p : Place) (bytes : Bytes) (i : Nat) :
    (p.put bytes).mem (p.target + i) = bytes[i]?.getD (p.mem (p.target + i)) :=
  (if_pos (Nat.le_add_right _ _)).trans (by rw [Nat.add_sub_cancel_left])

theorem Place.ext_put {p q : Place} {bytes : Bytes} (ht : q.target = p.target + bytes.length)
    (hlt : ∀ a, a < p.target → q.mem a = p.mem a)
    (hadd : ∀ i, q.mem (p.target + i) = bytes[i]?.getD (p.mem (p.target + i))) :
    q = p.put bytes := by
  obtain ⟨mem, target⟩ := q
  obtain rfl := ht
  refine congrArg (Place.mk · _) (funext fun a => ?_)
  rcases Nat.lt_or_ge a p.target with ha | ha
  · exact (hlt a ha).trans (mem_put_of_lt p bytes ha).symm
  · obtain ⟨i, rfl⟩ := Nat.exists_eq_add_of_le ha
    exact (hadd i).trans (mem_put_add p bytes i).symm

theorem Place.put_nil (p : Place) : p.put [] = p :=
  (ext_put rfl (fun _ _ => rfl) fun _ => rfl).symm

theorem Place.put_put (p : Place) (bytes bytes' : Bytes) :
    (p.put bytes).put bytes' = p.put (bytes ++ bytes') := by
  refine ext_put ?_ (fun a ha => ?_) fun i => ?_
  · rw [List.length_append, ← Nat.add_assoc]
    rfl
  · rw [mem_put_of_lt _ _ (Nat.lt_of_lt_of_le ha (Nat.le_add_right _ _)), mem_put_of_lt _ _ ha]
  · rw [List.getElem?_append]
    rcases Nat.lt_or_ge i bytes.length with hi | hi
    · rw [if_pos hi, mem_put_of_lt _ _ (Nat.add_lt_add_left hi _), mem_put_add]
    · obtain ⟨k, rfl⟩ := Nat.exists_eq_add_of_le hi
      have hat : ((p.put bytes).put bytes').mem (p.target + bytes.length + k) =
          bytes'[k]?.getD ((p.put bytes).mem (p.target + bytes.length + k)) :=
        mem_put_add (p.put bytes) bytes' k
      rw [Nat.add_assoc] at hat
      rw [if_neg (Nat.not_lt_of_le hi), Nat.add_sub_cancel_left, hat, mem_put_add p bytes,
        List.getElem?_eq_none hi, Option.getD_none]

/-- The bytes that have been put are where the target was. -/
theorem Place.load_put (p : Place) (bytes : Bytes) :
    load (p.put bytes).mem p.target bytes.length = bytes := by
  refine List.ext_getElem (by simp [load]) fun i hi hi' => ?_
  simp only [load, List.getElem_map, List.getElem_range]
  rw [mem_put_add, List.getElem?_eq_getElem hi', Option.getD_some]

/-- Nothing else has changed. -/
theorem Place.put_frame (p : Place) (bytes : Bytes) {a : Nat}
    (ha : a < p.target ∨ (p.put bytes).target ≤ a) : (p.put bytes).mem a = p.mem a := by
  rcases ha with hlt | hge
  · exact mem_put_of_lt p bytes hlt
  · obtain ⟨k, rfl⟩ := Nat.exists_eq_add_of_le hge
    have hat := mem_put_add p bytes (bytes.length + k)
    rw [List.getElem?_eq_none (Nat.le_add_right _ _), ← Nat.add_assoc] at hat
    exact hat

/-- Field by field, the array gets what the stream gets. -/
theorem Descriptor.serializeToArray_eq (hw : w.Lawful r) (m : M) (p : Place) :
    d.serializeToArray w m p = p.put (d.serialize r m) := by
  have hwrite (f : Field M) (p : Place) : w.write f.number f.type (f.get m) p =
      p.put (r.write f.number f.type (f.get m)) := by
    obtain ⟨number, type, get, set⟩ := f
    cases type with
    | string => exact hw.string _ _ _
    | int32 => exact hw.int32 _ _ _
  have hfields (fs : List (Field M)) (p : Place) : fs.foldl (fun p f =>
        if f.IsDefault m then p else w.write f.number f.type (f.get m) p) p =
      p.put (fs.flatMap fun f =>
        if f.IsDefault m then [] else r.write f.number f.type (f.get m)) := by
    induction fs generalizing p with
    | nil => exact p.put_nil.symm
    | cons f fs ih =>
      rw [List.foldl_cons, List.flatMap_cons, ih]
      split
      · rfl
      · rw [hwrite, Place.put_put]
  rw [serializeToArray, hfields, serialize, ← Place.put_put]
  cases hu : d.unknown m with
  | nil => exact (Place.put_nil _).symm
  | cons u us => exact hw.unknown _ _

end Writing

end Wire
