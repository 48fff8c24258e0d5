import FlatSchema.Catalog.WriteOrder
import FlatSchema.Record.Value

/-!
# Reading records

A table is read field by field through its vtable.  A scalar that is not
stored reads as its default, anything else that is not stored as null, and
deprecated fields are left out.  Nothing is assumed of the bytes: every access
outside the buffer fails.

A table that is reached from another stands strictly behind it, and structs do
not contain themselves, so the size of the buffer bounds how deep tables are
nested and the size of the catalog how deep structs are.
-/

namespace FlatSchema.Decode

variable {ν : Type} [Extent ν]

def ofWire {α : Type} : Except WireError α → Except RecordError α
  | .ok v => .ok v
  | .error err => .error (.wire err)

def readScalar (buf : Buffer) (kind : ScalarKind) (pos : ν) :
    Except RecordError Value := do
  let v ← ofWire (buf.readScalar kind pos)
  return .scalar v

def readStruct (buf : Buffer) (c : Catalog) :
    Nat → Catalog.StructType → ν → Except RecordError Value
  | 0, _, _ => .error .tooDeep
  | depth + 1, struct, pos => do
      let fs ← struct.fields.mapM fun f => do
        let place := pos + Extent.ofInt f.offset
        match ← c.structOf f.type with
        | some (_, nested) =>
          let v ← readStruct buf c depth nested place
          return some (f.name, v)
        | none =>
          match ← c.scalarOf f.type with
          | some kind =>
            let v ← readScalar buf kind place
            return some (f.name, v)
          | none => return none
      return .record (fs.filterMap id)

def readElements (read : Nat → Except RecordError Value) (i : Nat) :
    Nat → Except RecordError (List Value)
  | 0 => .ok []
  | n + 1 => do
      let first ← read i
      let rest ← readElements read (i + 1) n
      return first :: rest

def readVector (buf : Buffer) (c : Catalog)
    (readTable : Catalog.TableType → ν → Except RecordError Value) (elem : FieldType)
    (pos : ν) : Except RecordError Value := do
  let start ← ofWire (buf.vectorStart pos)
  let length ← ofWire (buf.vectorLength pos)
  let elems (size : Nat) (read : ν → Except RecordError Value) :
      Except RecordError Value := do
    let items ← readElements (fun i => read (start + Extent.ofInt (i * size))) 0 length
    return .list items
  match ← c.scalarOf elem with
  | some kind => elems kind.size (readScalar buf kind)
  | none =>
    match ← c.structOf elem with
    | some (_, struct) =>
      elems struct.size (readStruct buf c c.entries.length struct)
    | none =>
      match elem with
      | .string =>
        elems 4 fun place => do
          let text ← ofWire (buf.readText place)
          return .text text
      | .named id =>
        elems 4 fun place => do
          let target ← ofWire (buf.follow place)
          let (_, table) ← c.tableOf id
          readTable table target
      | _ => return .list []

def slotEntry (slot : Nat) : ν :=
  Extent.ofInt (Catalog.slotOffset slot : Nat)

def readUnion (buf : Buffer) (c : Catalog)
    (readTable : Catalog.TableType → ν → Except RecordError Value) (union : Catalog.UnionType)
    (typeSlot : Option Nat) (table pos : ν) : Except RecordError Value := do
  let tagOffset ← match typeSlot with
    | some slot => ofWire (buf.fieldOffset table (slotEntry slot))
    | none => pure 0
  let tag ← if tagOffset = 0 then pure 0
    else ofWire (buf.readNat 1 (table + Extent.ofInt tagOffset))
  match union.variants.find? fun alt => alt.tag = tag with
  | some alt => do
      let target ← ofWire (buf.follow pos)
      let (_, table) ← c.tableOf alt.table
      let v ← readTable table target
      return .record [("type", .text (Text.ofString alt.name)), ("value", v)]
  | none => return .null

def readField (buf : Buffer) (c : Catalog)
    (readTable : Catalog.TableType → ν → Except RecordError Value) (table : ν)
    (f : Catalog.TableField) : Except RecordError (Option Value) := do
  let off ← ofWire (buf.fieldOffset table (slotEntry f.slot))
  let pos := table + Extent.ofInt off
  match ← c.scalarOf f.type with
  | some kind =>
    if off = 0 then return some (.scalar (f.default.toScalar kind))
    else some <$> readScalar buf kind pos
  | none =>
    if off = 0 then return some .null
    else
      match f.type with
      | .scalar _ => return none
      | .string => do
          let text ← ofWire (buf.readText pos)
          return some (.text text)
      | .vector elem => some <$> readVector buf c readTable elem pos
      | .named id => do
          let e ← c.entryOf id
          match e.body with
          | .struct struct =>
            some <$> readStruct buf c c.entries.length struct pos
          | .table inner => do
              let target ← ofWire (buf.follow pos)
              some <$> readTable inner target
          | .union union =>
            some <$> readUnion buf c readTable union f.typeSlot table pos
          | _ => return none

/-- The live fields of a table, down to a depth. -/
def readTable (buf : Buffer) (c : Catalog) : Nat → Catalog.TableType → ν → Except RecordError Value
  | 0, _, _ => .error .tooDeep
  | depth + 1, table, pos => do
      let live := table.fields.filter fun f => !f.deprecated
      let fs ← live.mapM fun f => do
        let v ← readField buf c (readTable buf c depth) pos f
        return v.map fun v => (f.name, v)
      return .record (fs.filterMap id)

variable {ι : Type} [Extent ι]

def table (buf : Buffer) (c : Catalog) (id : ι) (pos : ν) :
    Except RecordError Value := do
  let (_, table) ← c.tableAt id
  readTable buf c (buf.size + 1) table pos

def root (buf : Buffer) (c : Catalog) (id : Option ι) (sized : Bool) :
    Except RecordError Value := do
  let id ← c.rootOf id
  let pos ← ofWire (buf.rootTable sized)
  table buf c id pos

end FlatSchema.Decode
