import FlatSchema.Catalog.WriteOrder
import FlatSchema.Record.Value

/-!
# Writing records

A record is written as a table in two steps: first everything its fields refer
to, in declaration order, then the table itself, widest slots first.  A struct
is written in place from its last field to its first.

Each step asks a value for the shape that the catalog gives it and fails with
the place where it has another.  Whole buffers are written with integer
offsets; the steps themselves take extents of either kind.
-/

namespace FlatSchema

abbrev Encode (ν : Type) := ExceptT RecordError (StateM (Builder ν))

namespace Encode

variable {ν : Type}

def ofBuild {α : Type} (op : Build ν α) : Encode ν α :=
  ExceptT.mk do
    match ← op.run with
    | .ok v => return .ok v
    | .error err => return .error (.wire err)

def ofExcept {α : Type} : Except RecordError α → Encode ν α
  | .ok v => pure v
  | .error err => throw err

instance : MonadLift (Except RecordError) (Encode ν) := ⟨ofExcept⟩

/-- A scalar value as its kind reads it back, so that it can be compared with a default. -/
def normalize (kind : ScalarKind) (place : String) (v : Option Value) :
    Except RecordError ScalarValue :=
  match v with
  | some (.scalar given) =>
    if kind = .bool then
      match given with
      | .flag truth => .ok (.flag truth)
      | .wide num => .ok (.flag (num != 0))
      | .number num => .ok (.flag (!num.isZero))
    else if kind.isWide then
      match given with
      | .wide num => .ok (.wide num)
      | .flag truth => .ok (.wide (if truth then 1 else 0))
      | .number num =>
        match num.integer? with
        | some whole => .ok (.wide whole)
        | none => .error (.wire .notInteger)
    else .ok (.number given.toNumber)
  | _ => .error (.expected place (.scalar kind))

def asRecord (place : String) (v : Option Value) : Except RecordError Fields :=
  match v with
  | some (.record fs) => .ok fs
  | _ => .error (.expected place .object)

def asText (place : String) (v : Option Value) : Except RecordError Text :=
  match v with
  | some (.text text) => .ok text
  | _ => .error (.expected place .string)

def placeOf (owner mem : String) : String :=
  owner ++ "." ++ mem

def placeAt (place : String) (i : Nat) : String :=
  place ++ "[" ++ toString i ++ "]"

variable [Extent ν]

def writeStruct (c : Catalog) (e : Catalog.Entry) (struct : Catalog.StructType)
    (fs : Fields) : Encode ν ν := do
  ofBuild <| Build.prep (Extent.ofInt struct.alignment) (Extent.ofInt struct.size)
  struct.fields.reverse.forM fun f => do
    ofBuild <| Build.pad (Extent.ofInt f.padding)
    let place := placeOf e.fullName f.name
    match ← c.structOf f.type with
    | some (inner, nested) =>
      match _h : fs.lookup f.name with
      | some (.record innerFs) =>
        let _ : ν ← writeStruct c inner nested innerFs
      | _ => throw (.expected place .object)
    | none =>
      match ← c.scalarOf f.type with
      | some kind =>
        let v ← normalize kind place (fs.lookup f.name)
        ofBuild <| Build.writeScalar kind v
      | none => throw (.structFieldType place)
  ofBuild Build.offset
termination_by sizeOf fs
decreasing_by
  have smaller := Fields.sizeOf_lt_of_lookup _h
  simp only [Value.record.sizeOf_spec] at smaller
  omega

/-- What a field refers to: its offset and, for a union, the tag of its variant. -/
structure Child (ν : Type) where
  offset : ν
  tag : Nat
deriving Inhabited, Repr

/-- Store one slot of a table, whose children are written already. -/
def writeSlot (c : Catalog) (e : Catalog.Entry) (fs : Fields)
    (children : List (String × Child ν)) (write : Catalog.SlotWrite) : Encode ν Unit := do
  let slot : ν := Extent.ofInt write.slot
  let f := write.field
  let place := placeOf e.fullName f.name
  let child := children.lookup f.name
  match write.part with
  | .type =>
    let tag := (child.map Child.tag).getD 0
    ofBuild <| Build.addFieldScalar slot .uint8 (.number (Double.ofInt tag)) (.number Double.zero)
  | .value =>
    match ← c.scalarOf f.type with
    | some kind =>
      let fallback := f.default.toScalar kind
      match fs.present? f.name with
      | some v => do
          let actual ← normalize kind place (some v)
          ofBuild <| Build.addFieldScalar slot kind actual fallback
      | none => ofBuild <| Build.addFieldScalar slot kind fallback fallback
    | none =>
      match ← c.structOf f.type with
      | some (inner, struct) =>
        match fs.present? f.name with
        | some v => do
            let innerFs ← asRecord place (some v)
            let off ← writeStruct c inner struct innerFs
            ofBuild <| Build.addFieldStruct slot off
        | none => return ()
      | none =>
        let target := (child.map Child.offset).getD (Extent.ofInt 0)
        ofBuild <| Build.addFieldOffset slot target

/-- Refuse a table that lacks a required field. -/
def checkRequired (t : Catalog.TableType) (off : ν) : Build ν Unit :=
  t.fields.forM fun f => do
    if f.required then
      Build.requiredField off (Extent.ofInt (Catalog.slotOffset f.slot : Nat))
        (some (Text.ofString f.name))

def writeStructs (c : Catalog) (e : Catalog.Entry) (struct : Catalog.StructType)
    (items : List Value) (place : String) : Encode ν ν := do
  ofBuild <| Build.startVector (Extent.ofInt struct.size) (Extent.ofInt items.length)
    (Extent.ofInt struct.alignment)
  items.reverse.forM fun item => do
    let fs ← asRecord place (some item)
    let _ : ν ← writeStruct c e struct fs
  ofBuild Build.endVector

mutual

/-- Write the children, then the slots in their order. -/
def writeTable (c : Catalog) (e : Catalog.Entry) (t : Catalog.TableType)
    (fs : Fields) : Encode ν ν := do
  let live := t.fields.filter fun f => !f.deprecated
  let children ← live.mapM fun f => do
    match _h : fs.present? f.name with
    | some v => do
        let child ← writeChild c f v (placeOf e.fullName f.name)
        return child.map fun child => (f.name, child)
    | none => return none
  ofBuild <| Build.startTable (Extent.ofInt t.slotCount)
  (t.writeOrder c).forM (writeSlot c e fs (children.filterMap id))
  let off ← ofBuild Build.endTable
  ofBuild (checkRequired t off)
  return off
termination_by sizeOf fs
decreasing_by
  exact Fields.sizeOf_lt_of_present _h

def writeChild (c : Catalog) (f : Catalog.TableField) (v : Value)
    (place : String) : Encode ν (Option (Child ν)) := do
  match f.type with
  | .scalar _ => return none
  | .string => do
      let text ← asText place (some v)
      let off ← ofBuild <| Build.createString (Utf8.encode text)
      return some ⟨off, 0⟩
  | .vector elem =>
    match v with
    | .list items => do
        let off ← writeVector c elem items place
        return some ⟨off, 0⟩
    | _ => throw (.expected place .array)
  | .named id => do
      let e ← c.entryOf id
      match e.body with
      | .table t =>
        match v with
        | .record fs => do
            let off ← writeTable c e t fs
            return some ⟨off, 0⟩
        | _ => throw (.expected place .object)
      | .union union =>
        match v with
        | .record choice => do
            let name ← asText (placeOf place "type") (choice.lookup "type")
            match union.variants.find? fun alt => Text.ofString alt.name == name with
            | none => throw (.unknownVariant place name e.fullName)
            | some alt =>
              match _h : choice.lookup "value" with
              | some (.record fs) => do
                  let (target, t) ← c.tableOf alt.table
                  let off ← writeTable c target t fs
                  return some ⟨off, alt.tag⟩
              | _ => throw (.expected (placeOf place "value") .object)
        | _ => throw (.expected place .object)
      | _ => return none
termination_by sizeOf v
decreasing_by
  · simp
  · simp
  · have smaller := Fields.sizeOf_lt_of_lookup _h
    simp only [Value.record.sizeOf_spec] at smaller ⊢
    omega

def writeVector (c : Catalog) (elem : FieldType) (items : List Value)
    (place : String) : Encode ν ν := do
  match ← c.scalarOf elem with
  | some kind => do
      let vs ← items.zipIdx.mapM fun (item, i) =>
        ofExcept (normalize kind (placeAt place i) (some item))
      ofBuild <| Build.createScalarVector kind vs
  | none =>
    match ← c.structOf elem with
    | some (e, struct) => writeStructs c e struct items place
    | none =>
      match elem with
      | .string => do
          let offsets ← items.zipIdx.mapM fun (item, i) => do
            let text ← asText (placeAt place i) (some item)
            ofBuild <| Build.createString (Utf8.encode text)
          ofBuild <| Build.createOffsetVector offsets
      | .named id => do
          let (target, t) ← c.tableOf id
          let offsets ← items.attach.zipIdx.mapM fun (⟨item, _member⟩, i) => do
            match _h : item with
            | .record fs => writeTable c target t fs
            | _ => throw (.expected (placeAt place i) .object)
          ofBuild <| Build.createOffsetVector offsets
      | _ => throw (.vectorElement place)
termination_by sizeOf items
decreasing_by
  have smaller := List.sizeOf_lt_of_mem _member
  subst _h
  simp only [Value.record.sizeOf_spec] at smaller
  omega

end

structure Options (ι : Type) where
  table : Option ι
  sizePrefix : Bool
  forceDefaults : Bool
deriving Inhabited

variable {ι : Type} [Extent ι]

/-- Write a record as a whole buffer.  The file identifier is that of the root type. -/
def root (c : Catalog) (options : Options ι) (fs : Fields) :
    Encode ν (List UInt8) := do
  let id ← c.rootOf options.table
  let (e, t) ← c.tableAt id
  let off ← writeTable c e t fs
  let isRoot := c.rootType.any fun rootType => Extent.same (Extent.ofInt rootType) id
  let ident := if isRoot then c.fileIdentifier else none
  ofBuild <| Build.finish off ident options.sizePrefix
  ofBuild Build.bytes

def bytesOf (c : Catalog) (options : Options ι) (fs : Fields) : Except RecordError (List UInt8) :=
  let b : Builder Int := Builder.start Builder.standardRoom options.forceDefaults
  ((root c options fs).run b).1

end Encode

end FlatSchema
