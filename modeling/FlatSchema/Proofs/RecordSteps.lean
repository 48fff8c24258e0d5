import FlatSchema.Proofs.Lookup
import FlatSchema.Record.Encode

/-!
# The steps of writing a record

The recursive writers of records carry along why they end.  The equations
below state what they do without it, one step at a time, so that two runs of a
writer can be compared step by step.
-/

namespace FlatSchema.Encode

open Build Catalog Extent

variable {ν : Type} {c : Catalog}

@[simp]
theorem liftM_ok (v : α) : (liftM (.ok v : Except RecordError α) : Encode ν α) = pure v :=
  rfl

variable [Extent ν]

/-- Write a field of a struct with the padding behind it. -/
def writeStructField (c : Catalog) (e : Entry) (fs : Fields)
    (f : StructField) : Encode ν Unit := do
  ofBuild <| pad (ofInt f.padding)
  match ← c.structOf f.type with
  | some (inner, nested) =>
    match fs.lookup f.name with
    | some (.record innerFs) =>
      let _ : ν ← writeStruct c inner nested innerFs
    | _ => throw (.expected (placeOf e.fullName f.name) .object)
  | none =>
    match ← c.scalarOf f.type with
    | some kind =>
      let v ←
        normalize kind (placeOf e.fullName f.name) (fs.lookup f.name)
      ofBuild <| writeScalar kind v
    | none => throw (.structFieldType (placeOf e.fullName f.name))

/-- A struct is written from its last field to its first. -/
theorem writeStruct_eq (e : Entry) (struct : StructType) (fs : Fields) :
    (writeStruct c e struct fs : Encode ν ν) = (do
      ofBuild <| prep (ofInt struct.alignment) (ofInt struct.size)
      struct.fields.reverse.forM (writeStructField c e fs)
      ofBuild offset) := by
  rw [writeStruct]
  refine congrArg (_ >>= ·) (funext fun _ => ?_)
  refine congrArg (· >>= _) (congrArg (List.forM _) (funext fun f => ?_))
  refine congrArg (_ >>= ·) (funext fun _ => congrArg (_ >>= ·) (funext fun hit => ?_))
  grind

/-- Write what a field of a record refers to, if the record has the field. -/
def writeReferred (c : Catalog) (e : Entry) (fs : Fields)
    (f : TableField) : Encode ν (Option (String × Child ν)) :=
  match fs.present? f.name with
  | some v => do
      let child ← writeChild c f v (placeOf e.fullName f.name)
      return child.map fun child => (f.name, child)
  | none => return none

theorem writeReferred_present (here : fs.present? f.name = some v) :
    (writeReferred c e fs f : Encode ν _) = do
      let child ← writeChild c f v (placeOf e.fullName f.name)
      return child.map fun child => (f.name, child) := by
  rw [writeReferred, here]

theorem writeReferred_absent (absent : fs.present? f.name = none) :
    (writeReferred c e fs f : Encode ν _) = return none := by
  rw [writeReferred, absent]

theorem writeTable_eq (e : Entry) (t : TableType) (fs : Fields) :
    (writeTable c e t fs : Encode ν ν) = do
      let kids ← (t.fields.filter fun f => !f.deprecated).mapM (writeReferred c e fs)
      ofBuild <| startTable (ofInt t.slotCount)
      (t.writeOrder c).forM (writeSlot c e fs (kids.filterMap id))
      let off ← ofBuild endTable
      ofBuild (checkRequired t off)
      return off := by
  rw [writeTable]
  refine congrArg (· >>= _) (congrArg (List.mapM · _) (funext fun f => ?_))
  grind [writeReferred_present, writeReferred_absent]

/-- Write an element of a vector of tables. -/
def writeElement (c : Catalog) (e : Entry) (t : TableType)
    (place : String) (elem : Value × Nat) : Encode ν ν :=
  match elem.1 with
  | .record fs => writeTable c e t fs
  | _ => throw (.expected (placeAt place elem.2) .object)

/-- A vector of tables is written after its elements. -/
theorem writeVector_named {id : Nat} (notScalar : c.scalarOf (.named id) = .ok none)
    (notStruct : c.structOf (.named id) = .ok none) (items : List Value) (place : String) :
    (writeVector c (.named id) items place : Encode ν ν) =
      ((liftM (c.tableOf id) : Encode ν _) >>= fun hit => do
        let offsets ← items.zipIdx.mapM (writeElement c hit.1 hit.2 place)
        ofBuild <| createOffsetVector offsets) := by
  rw [writeVector.eq_def, notScalar, notStruct]
  simp only [liftM_ok, pure_bind]
  refine bind_congr fun hit => congrArg (· >>= _) ?_
  have paired : items.zipIdx = items.attach.zipIdx.map fun pair => (pair.1.1, pair.2) := by
    conv => lhs; rw [← List.attach_map_subtype_val items, List.zipIdx_map]
    rfl
  rw [paired, List.mapM_map]
  refine congrArg (List.mapM · _) (funext fun pair => ?_)
  obtain ⟨⟨item, mem⟩, i⟩ := pair
  cases item <;> rfl

theorem writeVector_vector (elem : FieldType) (items : List Value) (place : String) :
    (writeVector c (.vector elem) items place : Encode ν ν) = throw (.vectorElement place) := by
  rw [writeVector.eq_def]
  rfl

section

variable {f : TableField} {id : Nat} {e : Entry}

/-- Nothing is written ahead of a table for a field whose value is stored in place. -/
theorem writeChild_scalar (stored : c.scalar? f.type = some kind) (v : Value) (place : String) :
    (writeChild c f v place : Encode ν _) = return none := by
  rw [writeChild.eq_def]
  cases type_eq : f.type with
  | scalar own => rfl
  | string | vector _ =>
    rw [type_eq] at stored
    cases stored
  | named id =>
    simp only [type_eq, scalar?, body?] at stored
    cases known : c.entry? id with
    | none =>
      rw [known] at stored
      cases stored
    | some e =>
      simp only [entryOf, known, liftM_ok, pure_bind]
      grind

theorem writeChild_vector (type_eq : f.type = .vector elem) (items : List Value) (place : String) :
    (writeChild c f (.list items) place : Encode ν _) = do
      let off ← writeVector c elem items place
      return some ⟨off, 0⟩ := by
  rw [writeChild.eq_def, type_eq]

theorem writeChild_table (type_eq : f.type = .named id)
    (hit : c.entryOf id = .ok e) (body : e.body = .table t) (fs : Fields) (place : String) :
    (writeChild c f (.record fs) place : Encode ν _) = do
      let off ← writeTable c e t fs
      return some ⟨off, 0⟩ := by
  rw [writeChild.eq_def, type_eq]
  simp [hit, body]

theorem writeChild_union (type_eq : f.type = .named id)
    (hit : c.entryOf id = .ok e) (body : e.body = .union union)
    (named : pick.lookup "type" = some (.text name))
    (chosen : (union.variants.find? fun alt => Text.ofString alt.name == name) = some alt)
    (held : pick.lookup "value" = some (.record fs)) (place : String) :
    (writeChild c f (.record pick) place : Encode ν _) =
      ((liftM (c.tableOf alt.table) : Encode ν _) >>= fun hit => do
        let off ← writeTable c hit.1 hit.2 fs
        return some ⟨off, alt.tag⟩) := by
  rw [writeChild.eq_def, type_eq]
  simp only [hit, body, named, asText, chosen, liftM_ok, pure_bind]
  grind

/-- Nothing is written ahead of a table for a scalar. -/
theorem writeReferred_scalar (stored : c.scalar? f.type = some kind) (fs : Fields) :
    (writeReferred c e fs f : Encode ν _) = return none := by
  rw [writeReferred]
  split
  · rw [writeChild_scalar stored, pure_bind, Option.map_none]
  · rfl

end

end FlatSchema.Encode
