import FlatSchema.Catalog

/-!
# The order in which a table is written

The slots of a table are written widest first, so that little padding is
needed between them, and in declaration order among equal widths.  Deprecated
fields are not written.  A union field writes two slots: the tag of the variant
and the offset of its table.
-/

namespace FlatSchema.Catalog

inductive SlotPart where
  | value
  | type
deriving DecidableEq, Inhabited, Repr

structure SlotWrite where
  field : TableField
  part : SlotPart
  slot : Nat
  width : Nat
deriving DecidableEq, Inhabited, Repr

/-- The width, for the order of writing, of a value of a type: a scalar has its size, a struct its
alignment, and all else is stored as an offset of four bytes. -/
def inlineWidth (c : Catalog) (ty : FieldType) : Nat :=
  match c.scalar? ty with
  | some kind => kind.size
  | none =>
    match ty with
    | .named id =>
      match c.body? id with
      | some (.struct struct) => struct.alignment
      | _ => 4
    | _ => 4

def TableField.writes (c : Catalog) (f : TableField) : List SlotWrite :=
  if f.deprecated then []
  else
    let v : SlotWrite := ⟨f, .value, f.slot, inlineWidth c f.type⟩
    match f.typeSlot with
    | some typeSlot => [⟨f, .type, typeSlot, 1⟩, v]
    | none => [v]

def TableType.writeOrder (c : Catalog) (t : TableType) : List SlotWrite :=
  (t.fields.flatMap (TableField.writes c)).mergeSort
    fun left right => right.width ≤ left.width

/-- Where the entry of a slot stands in a vtable: after its two header words. -/
def slotOffset {ν : Type} [Add ν] [Mul ν] [OfNat ν 2] [OfNat ν 4] (slot : ν) : ν :=
  4 + 2 * slot

end FlatSchema.Catalog
