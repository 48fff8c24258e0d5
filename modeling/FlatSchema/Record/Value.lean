import FlatSchema.Catalog
import FlatSchema.Wire.Builder

/-!
# Records

The values that a catalog describes, apart from any buffer: a table or a struct
is a record of named fields, a vector a list, a union a record of the name of
its variant under `type` and of its table under `value`.  A field that is not
there and one that is null mean the same.
-/

namespace FlatSchema

inductive Value where
  | null
  | scalar (v : ScalarValue)
  | text (v : Text)
  | list (items : List Value)
  | record (fs : List (String × Value))
deriving Inhabited, Repr

abbrev Fields := List (String × Value)

def Fields.present? (fs : Fields) (name : String) : Option Value :=
  match fs.lookup name with
  | some .null => none
  | other => other

theorem Fields.sizeOf_lt_of_lookup {fs : Fields} {name : String} {v : Value}
    (hit : fs.lookup name = some v) : sizeOf v < sizeOf fs := by
  induction fs with
  | nil => simp at hit
  | cons first rest ih =>
    obtain ⟨key, e⟩ := first
    rw [List.lookup_cons] at hit
    split at hit
    · simp only [Option.some.injEq] at hit
      subst hit
      simp only [List.cons.sizeOf_spec, Prod.mk.sizeOf_spec]
      omega
    · have smaller := ih hit
      simp only [List.cons.sizeOf_spec, Prod.mk.sizeOf_spec]
      omega

theorem Fields.sizeOf_lt_of_present {fs : Fields} {name : String} {v : Value}
    (hit : fs.present? name = some v) : sizeOf v < sizeOf fs := by
  unfold Fields.present? at hit
  split at hit
  · simp at hit
  · exact Fields.sizeOf_lt_of_lookup hit

inductive Shape where
  | object
  | string
  | array
  | scalar (kind : ScalarKind)
deriving DecidableEq, Inhabited, Repr

def Shape.describe : Shape → String
  | .object => "an object"
  | .string => "a string"
  | .array => "an array"
  | .scalar kind => "a " ++ kind.name ++ " value"

inductive RecordError where
  | wire (err : WireError)
  | unknownEntry (id : Double)
  | notTable (name : String)
  | expected (place : String) (shape : Shape)
  | unknownVariant (place : String) (name : Text) (union : String)
  | structFieldType (place : String)
  | vectorElement (place : String)
  | noRoot
  /-- Nesting beyond the bound that every catalog and buffer obeys. -/
  | tooDeep
deriving DecidableEq, Inhabited, Repr

namespace RecordError

def failureClass : RecordError → FailureClass
  | .wire err => err.failureClass
  | .unknownEntry _ => .range
  | .tooDeep => .range
  | _ => .type

def message? : RecordError → Option Text
  | .wire err => err.message?
  | .unknownEntry id => some (Text.ofString s!"Unknown declaration id {id.toText}")
  | .notTable name => some s!"\"{name}\" is not a table"
  | .expected place shape => some s!"{place}: expected {shape.describe}"
  | .unknownVariant place name union =>
    some (Text.ofString s!"{place}: \"" ++ name ++
      Text.ofString s!"\" is not a variant of {union}")
  | .structFieldType place => some s!"{place}: unsupported struct field type"
  | .vectorElement place => some s!"{place}: unsupported vector element type"
  | .noRoot => some "Schema declares no root_type; pass options.table"
  | .tooDeep => none

end RecordError

namespace Catalog

def entryOf (c : Catalog) (id : Nat) : Except RecordError Entry :=
  match c.entry? id with
  | some e => .ok e
  | none => .error (.unknownEntry (Double.ofInt id))

def entryAt {ν : Type} [Extent ν] (c : Catalog) (id : ν) : Except RecordError Entry :=
  match (Extent.integer? id).bind Int.toNat? with
  | some num => c.entryOf num
  | none => .error (.unknownEntry (Extent.toDouble id))

@[simp]
theorem entryAt_natCast (c : Catalog) (id : Nat) : c.entryAt (id : Int) = c.entryOf id := by
  simp only [entryAt, Extent.integer?_int, Option.bind_some]
  rfl

def Entry.tableOf (e : Entry) : Except RecordError TableType :=
  match e.body with
  | .table t => .ok t
  | _ => .error (.notTable e.fullName)

def tableOf (c : Catalog) (id : Nat) : Except RecordError (Entry × TableType) := do
  let e ← c.entryOf id
  return (e, ← e.tableOf)

def tableAt {ν : Type} [Extent ν] (c : Catalog) (id : ν) :
    Except RecordError (Entry × TableType) := do
  let e ← c.entryAt id
  return (e, ← e.tableOf)

def structOf (c : Catalog) (ty : FieldType) : Except RecordError (Option (Entry × StructType)) :=
  match ty with
  | .named id => do
      let e ← c.entryOf id
      match e.body with
      | .struct struct => return some (e, struct)
      | _ => return none
  | _ => return none

def scalarOf (c : Catalog) (ty : FieldType) : Except RecordError (Option ScalarKind) :=
  match ty with
  | .scalar kind => return some kind
  | .named id => do
      let e ← c.entryOf id
      match e.body with
      | .enum enum => return some enum.underlying
      | _ => return none
  | _ => return none

/-- The table that a buffer holds: the given one, else the root type. -/
def rootOf {ν : Type} [Extent ν] (c : Catalog) (t : Option ν) : Except RecordError ν :=
  match t, c.rootType with
  | some id, _ => .ok id
  | none, some id => .ok (Extent.ofInt id)
  | none, none => .error .noRoot

end Catalog

def DefaultValue.toScalar (kind : ScalarKind) : DefaultValue → ScalarValue
  | .int v =>
    if kind = .bool then .flag (v != 0)
    else if kind.isWide then .wide v
    else .number (Double.ofInt v)
  | .float v => .number v
  | .bool v => .flag v
  | .absent =>
    if kind.isWide then .wide 0
    else if kind = .bool then .flag false
    else .number Double.zero

end FlatSchema
