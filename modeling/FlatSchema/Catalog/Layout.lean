import FlatSchema.Catalog
import FlatSchema.Layout

/-!
# Struct layouts as they are written

A catalog counts the bytes of its structs exactly.  Where sizes are written
out they are floating-point numbers, laid out by the same rule: up to 2^53
these are the exact sizes, and beyond each step is rounded.
-/

namespace FlatSchema.Catalog

def fieldShape (c : Catalog) (f : StructField) : FieldShape Nat Double :=
  match c.scalar? f.type, f.type with
  | some kind, _ => .inline ⟨Double.ofInt kind.size, Double.ofInt kind.size⟩
  | none, .named id => .struct id
  | none, _ => .invalid

/-- The shapes of the structs of a catalog.  The alignment of each is the one it has. -/
def structShapes (c : Catalog) : List (Nat × StructShape Nat Double) :=
  c.entries.filterMap fun e =>
    match e.body with
    | .struct struct =>
      some (e.id,
        ⟨struct.fields.map c.fieldShape, some (Double.ofInt struct.alignment)⟩)
    | _ => none

def structLayouts (c : Catalog) : List (Nat × StructLayout Double) :=
  StructLayout.ofShapes c.structShapes

end FlatSchema.Catalog
