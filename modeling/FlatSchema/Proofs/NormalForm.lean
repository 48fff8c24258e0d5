import FlatSchema.Proofs.Lookup
import FlatSchema.Proofs.ScalarBytes
import FlatSchema.Record.Encode

/-!
# The normal form of a record

What a record reads back as after it has been written.  A table has exactly
its fields that are not deprecated: a scalar that is missing or counts as its
default is the default, any other scalar is converted to its kind, and what is
missing else is null.  Texts lose what no encoding keeps, vectors keep their
elements in order, structs and tables are taken field by field, and a union
keeps the name of its variant.
-/

namespace FlatSchema

namespace ScalarKind

variable (kind : ScalarKind)

/-- The scalar that a kind takes a given one for, before it is stored. -/
def coerce (given : ScalarValue) : ScalarValue :=
  match kind with
  | .bool =>
    match given with
    | .flag truth => .flag truth
    | .wide num => .flag (num != 0)
    | .number num => .flag !num.isZero
  | .int64 | .uint64 => .wide (given.toInteger?.getD 0)
  | _ => .number given.toNumber

/-- The normal form of a scalar that is always stored. -/
def normal : Value → Value
  | .scalar given => .scalar (kind.convert (kind.coerce given))
  | _ => .null

/-- The normal form of a scalar that is left out where it counts as a default. -/
def normalOr (fallback : ScalarValue) : Value → Value
  | .scalar given =>
    if (kind.coerce given).same fallback then .scalar fallback
    else .scalar (kind.convert (kind.coerce given))
  | _ => .null

end ScalarKind

namespace Catalog

/-- The normal form of a field that a record lacks. -/
def TableField.normalAbsent (c : Catalog) (fld : TableField) : Value :=
  match c.scalar? fld.type with
  | some kind => .scalar (fld.default.toScalar kind)
  | none => .null

/-- The normal form of a value of a type. -/
def normalForm (c : Catalog) (ty : FieldType) (v : Value) : Value :=
  match ty with
  | .scalar kind => kind.normal v
  | .string =>
    match v with
    | .text text => .text (Utf8.decode (Utf8.encode text))
    | _ => .null
  | .vector elem =>
    match v with
    | .list items => .list (items.attach.map fun item => normalForm c elem item.1)
    | _ => .null
  | .named id =>
    match c.body? id, v with
    | some (.enum enum), scalar => enum.underlying.normal scalar
    | some (.struct struct), .record fs =>
      .record (struct.fields.map fun fld =>
        (fld.name,
          match _h : fs.lookup fld.name with
          | some inner => normalForm c fld.type inner
          | none => .null))
    | some (.table t), .record fs =>
      .record ((t.fields.filter fun fld => !fld.deprecated).map fun fld =>
        (fld.name,
          match _h : Fields.present? fs fld.name with
          | some inner =>
            match c.scalar? fld.type with
            | some kind => kind.normalOr (fld.default.toScalar kind) inner
            | none => normalForm c fld.type inner
          | none => fld.normalAbsent c))
    | some (.union union), .record pick =>
      match pick.lookup "type", _h : pick.lookup "value" with
      | some (.text name), some inner =>
        match union.variants.find? fun alt => Text.ofString alt.name == name with
        | some alt =>
          .record
            [("type", .text name),
              ("value", normalForm c (.named alt.table) inner)]
        | none => .null
      | _, _ => .null
    | _, _ => .null
termination_by sizeOf v
decreasing_by
  · have smaller := List.sizeOf_lt_of_mem item.2
    simp only [Value.list.sizeOf_spec]
    omega
  · have smaller := Fields.sizeOf_lt_of_lookup _h
    grind
  · have smaller := Fields.sizeOf_lt_of_present _h
    grind
  · have smaller := Fields.sizeOf_lt_of_lookup _h
    grind

/-- The normal form of a field of a record that is a struct. -/
def normalStructField (c : Catalog) (fs : Fields) (fld : StructField) : Value :=
  match fs.lookup fld.name with
  | some inner => c.normalForm fld.type inner
  | none => .null

/-- The normal form of a field of a record that is a table. -/
def normalTableField (c : Catalog) (fs : Fields) (fld : TableField) : Value :=
  match fs.present? fld.name with
  | some inner =>
    match c.scalar? fld.type with
    | some kind => kind.normalOr (fld.default.toScalar kind) inner
    | none => c.normalForm fld.type inner
  | none => fld.normalAbsent c

variable {c : Catalog} {id : Nat}

theorem normalForm_text (text : Text) :
    c.normalForm .string (.text text) = .text (Utf8.decode (Utf8.encode text)) := by
  rw [normalForm.eq_def]

theorem normalForm_list (elem : FieldType) (items : List Value) :
    c.normalForm (.vector elem) (.list items) = .list (items.map (c.normalForm elem)) := by
  simp_all [normalForm]

theorem normalForm_scalar (stored : c.scalar? ty = some kind) (v : Value) :
    c.normalForm ty v = kind.normal v := by
  rw [normalForm.eq_def]
  unfold scalar? at stored
  grind

theorem normalForm_struct (hit : c.body? id = some (.struct struct)) (fs : Fields) :
    c.normalForm (.named id) (.record fs) =
      .record (struct.fields.map fun fld => (fld.name, c.normalStructField fs fld)) := by
  rw [normalForm.eq_def]
  simp only [hit]
  refine congrArg Value.record (List.map_congr_left fun fld _ => ?_)
  rw [normalStructField]
  split <;> simp only [*]

theorem normalForm_table (hit : c.body? id = some (.table t)) (fs : Fields) :
    c.normalForm (.named id) (.record fs) =
      .record ((t.fields.filter fun fld => !fld.deprecated).map fun fld =>
        (fld.name, c.normalTableField fs fld)) := by
  rw [normalForm.eq_def]
  simp only [hit]
  refine congrArg Value.record (List.map_congr_left fun fld _ => ?_)
  rw [normalTableField]
  split <;> simp only [*]

theorem normalForm_union {inner : Value} (hit : c.body? id = some (.union union))
    (named : pick.lookup "type" = some (.text name)) (held : pick.lookup "value" = some inner)
    (chosen : (union.variants.find? fun alt => Text.ofString alt.name == name) = some alt) :
    c.normalForm (.named id) (.record pick) =
      .record [("type", .text name), ("value", c.normalForm (.named alt.table) inner)] := by
  rw [normalForm.eq_def]
  grind

end Catalog

namespace Encode

/-- What is written for a scalar is the one that its kind takes it for. -/
theorem normalize_spec (normalized : normalize kind place v = .ok actual) :
    ∃ given, v = some (.scalar given) ∧ actual = kind.coerce given := by
  unfold normalize at normalized
  split at normalized
  · next given =>
      refine ⟨given, rfl, ?_⟩
      cases kind with
      | bool =>
        cases given <;> exact (Except.ok.inj normalized).symm
      | int64 | uint64 =>
        cases given with
        | wide num => exact (Except.ok.inj normalized).symm
        | flag truth => exact (Except.ok.inj normalized).symm
        | number num =>
          simp only [reduceCtorEq, if_false, ScalarKind.isWide, if_true] at normalized
          split at normalized
          · next all hit =>
              cases normalized
              rw [Double.integer?] at hit
              split at hit
              · simp only [ScalarKind.coerce, ScalarValue.toInteger?, hit, Option.getD_some]
              · cases hit
          · cases normalized
      | _ => exact (Except.ok.inj normalized).symm
  · cases normalized

end Encode

end FlatSchema
