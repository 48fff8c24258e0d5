import FlatSchema.Proofs.RecordRoundTrip

/-!
# Values of smaller and larger catalogs

What a catalog and one that extends it make of the same bytes differs in the
fields of tables alone, at every level of nesting.  `restrict` takes away the
fields that a catalog does not know, and `widen` adds those that only the
other knows, as they read where they are not stored.  Both walk a value along
its type and change the fields of each table.
-/

namespace FlatSchema

namespace Text

/-- The code units of a character tell it apart from every other. -/
theorem unitsOfChar_append_inj (same : unitsOfChar fst ++ left = unitsOfChar snd ++ right) :
    fst = snd ∧ left = right := by
  have firstValid : fst.toNat.isValidChar := fst.valid
  have secondValid : snd.toNat.isValidChar := snd.valid
  have equal : fst.toNat = snd.toNat → fst = snd := Char.toNat_inj.mp
  unfold unitsOfChar at same
  -- A unit of its own is no surrogate, and a pair begins with one.
  split at same <;> split at same <;>
    simp only [List.cons_append, List.nil_append, List.cons.injEq, ← UInt16.toNat_inj,
      UInt16.toNat_ofNat'] at same
  · exact ⟨equal (by omega), same.2⟩
  · omega
  · omega
  · exact ⟨equal (by omega), same.2.2⟩

theorem ofChars_inj (same : ofChars left = ofChars right) : left = right := by
  induction left generalizing right with
  | nil =>
    cases right with
    | nil => rfl
    | cons hd rest =>
      have lengths := congrArg (fun text => text.units.length) same
      simp only [ofChars, List.flatMap_nil, List.flatMap_cons, List.length_append,
        length_unitsOfChar, List.length_nil, width] at lengths
      split at lengths <;> omega
  | cons hd rest ih =>
    cases right with
    | nil =>
      have lengths := congrArg (fun text => text.units.length) same
      simp only [ofChars, List.flatMap_nil, List.flatMap_cons, List.length_append,
        length_unitsOfChar, List.length_nil, width] at lengths
      split at lengths <;> omega
    | cons other others =>
      have units := congrArg Text.units same
      rcases unitsOfChar_append_inj units with ⟨rfl, tails⟩
      rw [ih (congrArg Text.mk tails)]

/-- Different strings are different texts. -/
theorem ofString_inj (same : ofString left = ofString right) : left = right :=
  String.toList_inj.mp (ofChars_inj same)

end Text

namespace Catalog

/-- The type of a member of a record that stands for an entry: of a field of a table, or of the
table that a union holds. -/
def memberType? (c : Catalog) (id : Nat) (fs : Fields) (name : String) : Option FieldType :=
  match c.body? id with
  | some (.table t) =>
    (t.fields.find? fun fld => fld.name = name).map TableField.type
  | some (.union union) =>
    match name == "value", fs.lookup "type" with
    | true, some (.text chosen) =>
      (union.variants.find? fun alt => Text.ofString alt.name == chosen).map
        fun alt => .named alt.table
    | _, _ => none
  | _ => none

/-- Change the fields of the records inside a value of a type, the innermost first. -/
def reshape (c : Catalog) (change : Nat → Fields → Fields) (ty : FieldType) (v : Value) : Value :=
  match ty, v with
  | .vector elem, .list items =>
    .list (items.attach.map fun item => reshape c change elem item.1)
  | .named id, .record fs =>
    .record (change id (fs.attach.map fun mem =>
      (mem.1.1,
        match c.memberType? id fs mem.1.1 with
        | some inner => reshape c change inner mem.1.2
        | none => mem.1.2)))
  | _, other => other
termination_by sizeOf v
decreasing_by
  · have smaller := List.sizeOf_lt_of_mem item.2
    simp only [Value.list.sizeOf_spec]
    omega
  · have smaller := List.sizeOf_lt_of_mem mem.2
    grind

/-- The fields of a record that a catalog knows, if it is a table. -/
def ownFields (c : Catalog) (id : Nat) (fs : Fields) : Fields :=
  match c.body? id with
  | some (.table t) =>
    fs.filter fun mem => t.fields.any fun fld => fld.name = mem.1
  | _ => fs

/-- A value without the fields that a catalog does not know. -/
def restrict (c : Catalog) (ty : FieldType) (v : Value) : Value :=
  c.reshape c.ownFields ty v

/-- The fields that a table has in another catalog after its own. -/
def extraFields (old new : Catalog) (id : Nat) : List TableField :=
  match old.body? id, new.body? id with
  | some (.table t), some (.table grown) => grown.fields.drop t.fields.length
  | _, _ => []

/-- The fields of a record and those that only another catalog knows, as they read where they are
not stored. -/
def allFields (old new : Catalog) (id : Nat) (fs : Fields) : Fields :=
  fs ++
    ((old.extraFields new id).filter fun fld => !fld.deprecated).map fun fld =>
      (fld.name, fld.normalAbsent new)

/-- A value with the fields that only another catalog knows. -/
def widen (old new : Catalog) (ty : FieldType) (v : Value) : Value :=
  old.reshape (old.allFields new) ty v

variable {c : Catalog} {change : Nat → Fields → Fields}

theorem reshape_list (elem : FieldType) (items : List Value) :
    c.reshape change (.vector elem) (.list items) = .list (items.map (c.reshape change elem)) := by
  simp_all [reshape, congrArg, List.attach_map_val]

/-- A member of a record, reshaped along its type. -/
def reshapeMember (c : Catalog) (change : Nat → Fields → Fields) (id : Nat)
    (fs : Fields) (mem : String × Value) : String × Value :=
  (mem.1,
    match c.memberType? id fs mem.1 with
    | some inner => c.reshape change inner mem.2
    | none => mem.2)

theorem reshape_record (id : Nat) (fs : Fields) :
    c.reshape change (.named id) (.record fs) =
      .record (change id (fs.map (c.reshapeMember change id fs))) := by
  rw [reshape]
  refine congrArg (fun members => Value.record (change id members)) ?_
  exact List.attach_map_val (f := c.reshapeMember change id fs)

@[simp]
theorem reshape_scalar (ty : FieldType) (v : ScalarValue) :
    c.reshape change ty (.scalar v) = .scalar v := by
  cases ty <;> rw [reshape] <;> simp

@[simp]
theorem reshape_text (ty : FieldType) (text : Text) :
    c.reshape change ty (.text text) = .text text := by
  cases ty <;> rw [reshape] <;> simp

@[simp]
theorem reshape_null (ty : FieldType) : c.reshape change ty .null = .null := by
  cases ty <;> rw [reshape] <;> simp

/-- A value of a type whose members have no types of their own stays as it is. -/
theorem reshape_eq_self {id : Nat} (plain : ∀ fs name, c.memberType? id fs name = none)
    (fixed : ∀ fs, change id fs = fs) (v : Value) : c.reshape change (.named id) v = v := by
  cases v with
  | record fs =>
    have same : ∀ mem ∈ fs, c.reshapeMember change id fs mem = mem := by
      intro mem _
      rw [reshapeMember, plain]
    rw [reshape_record, fixed, List.map_congr_left same, List.map_id']
  | list items =>
    rw [reshape] <;> intros <;> simp_all only [reduceCtorEq]
  | null | scalar _ | text _ => simp

section Table

variable
  {id : Nat}
  {t : TableType}
  (body : c.body? id = some (.table t))
include body

/-- The member that a field names is reshaped along the type of the field. -/
theorem reshapeMember_field (nodup : (t.fields.map TableField.name).Nodup)
    (mem : fld ∈ t.fields) (fs : Fields) (v : Value) :
    c.reshapeMember change id fs (fld.name, v) = (fld.name, c.reshape change fld.type v) := by
  have hit := find?_of_nodup nodup mem
  rw [reshapeMember, memberType?, body]
  simp [hit]

theorem map_reshapeMember (nodup : (t.fields.map TableField.name).Nodup)
    {listed : List TableField} (members : ∀ fld ∈ listed, fld ∈ t.fields)
    (held : TableField → Option Value) (fs : Fields) :
    (listed.filterMap fun fld => (held fld).map fun v => (fld.name, v)).map
        (c.reshapeMember change id fs) =
      listed.filterMap fun fld =>
        (held fld).map fun v => (fld.name, c.reshape change fld.type v) := by
  rw [List.map_filterMap]
  refine List.filterMap_congr fun fld listed => ?_
  rw [Option.map_map]
  refine Option.map_congr fun v _ => ?_
  exact reshapeMember_field body nodup (members fld listed) fs v

end Table

/-- The table that a union holds is reshaped along its variant. -/
theorem reshape_union {id : Nat} (body : c.body? id = some (.union union))
    (chosen : (union.variants.find? fun alt => Text.ofString alt.name == name) = some alt)
    (inner : Value) :
    c.reshape change (.named id) (.record [("type", .text name), ("value", inner)]) =
      .record (change id [("type", .text name),
        ("value", c.reshape change (.named alt.table) inner)]) := by
  rw [reshape_record]
  simp [reshapeMember, memberType?, body, chosen]

/-! ## Fields that only one catalog knows -/

section Restrict

variable {id : Nat} {t : TableType} {extra : List TableField}

theorem ownFields_of_table (hit : c.body? id = some (.table t)) (fs : Fields) :
    c.ownFields id fs = fs.filter fun mem => t.fields.any fun fld => fld.name = mem.1 := by
  rw [ownFields, hit]

theorem ownFields_of_not_table (hit : c.body? id = some body)
    (notTable : ∀ t, body ≠ .table t) (fs : Fields) : c.ownFields id fs = fs := by
  grind [ownFields, body?]

/-- Of the members that fields of a grown table name, those of the fields it had are left. -/
theorem restrict_table (body : c.body? id = some (.table t))
    (nodup : ((t.fields ++ extra).map TableField.name).Nodup) (keep : TableField → Bool)
    (held : TableField → Option Value) :
    c.restrict (.named id)
        (.record (((t.fields ++ extra).filter keep).filterMap fun fld =>
          (held fld).map fun v => (fld.name, v))) =
      .record ((t.fields.filter keep).filterMap fun fld =>
        (held fld).map fun v => (fld.name, c.restrict fld.type v)) := by
  rw [List.map_append, List.nodup_append] at nodup
  rcases nodup with ⟨distinct, _, apart⟩
  rw [restrict, reshape_record, ownFields_of_table body]
  refine congrArg Value.record ?_
  rw [List.filter_append, List.filterMap_append, List.map_append, List.filter_append,
    map_reshapeMember body distinct fun fld mem => (List.mem_filter.mp mem).1]
  -- The first part names fields of the table only, the second none of them.
  refine (congrArg₂ (· ++ ·) (List.filter_eq_self.mpr ?_) (List.filter_eq_nil_iff.mpr ?_)).trans
    (List.append_nil _)
  · intro mem listed
    rcases List.mem_filterMap.mp listed with ⟨fld, kept, held_eq⟩
    rcases Option.map_eq_some_iff.mp held_eq with ⟨v, _, rfl⟩
    exact List.any_eq_true.mpr ⟨fld, (List.mem_filter.mp kept).1, decide_eq_true rfl⟩
  · intro mem listed hit
    rcases List.mem_map.mp listed with ⟨given, named, rfl⟩
    rcases List.mem_filterMap.mp named with ⟨fld, kept, held_eq⟩
    rcases Option.map_eq_some_iff.mp held_eq with ⟨v, _, rfl⟩
    rcases List.any_eq_true.mp hit with ⟨own, mem, same⟩
    exact apart _ (List.mem_map_of_mem mem) _
      (List.mem_map_of_mem (List.mem_filter.mp kept).1) (of_decide_eq_true same)

end Restrict

section Widen

variable {old new : Catalog} {id : Nat} {t grown : TableType} {extra : List TableField}

theorem extraFields_of_not_table (hit : old.body? id = some body)
    (notTable : ∀ t, body ≠ .table t) : old.extraFields new id = [] := by
  grind [extraFields, body?]

theorem allFields_of_not_table (hit : old.body? id = some body)
    (notTable : ∀ t, body ≠ .table t) (fs : Fields) : old.allFields new id fs = fs := by
  rw [allFields, extraFields_of_not_table hit notTable]
  exact List.append_nil _

/-- The members that the fields of a table name come with those of the fields it has grown by. -/
theorem widen_table (body : old.body? id = some (.table t))
    (grownBody : new.body? id = some (.table grown)) (fields_eq : grown.fields = t.fields ++ extra)
    (nodup : (t.fields.map TableField.name).Nodup) (keep : TableField → Bool)
    (held : TableField → Option Value) :
    old.widen new (.named id)
        (.record ((t.fields.filter keep).filterMap fun fld =>
          (held fld).map fun v => (fld.name, v))) =
      .record
        (((t.fields.filter keep).filterMap fun fld =>
            (held fld).map fun v => (fld.name, old.widen new fld.type v)) ++
          (extra.filter fun fld => !fld.deprecated).map fun fld =>
            (fld.name, fld.normalAbsent new)) := by
  have extra_eq : old.extraFields new id = extra := by
    grind [extraFields, body?]
  rw [widen, reshape_record, allFields, extra_eq,
    map_reshapeMember body nodup fun fld mem => (List.mem_filter.mp mem).1]
  rfl

end Widen

end Catalog

end FlatSchema
