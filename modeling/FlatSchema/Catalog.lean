import FlatSchema.Number.Double
import FlatSchema.Scalar
import FlatSchema.Source

/-!
# Catalogs

A catalog is a checked set of schemas: every declaration with its number, every
reference a number of the catalog, struct fields with their places and table
fields with their slots and defaults.  Generators and codecs read catalogs only
and resolve no names.
-/

namespace FlatSchema

/-- The type of a field.  A named type is given by the number of its declaration. -/
inductive FieldType where
  | scalar (kind : ScalarKind)
  | string
  | vector (elem : FieldType)
  | named (id : Nat)
deriving DecidableEq, Inhabited, Repr

/-- What a table field reads as where it is not stored. -/
inductive DefaultValue where
  | int (v : Int)
  | float (v : Double)
  | bool (v : Bool)
  | absent
deriving DecidableEq, Inhabited, Repr

inductive AttributeValue where
  | int (v : Int)
  | float (v : Double)
  | bool (v : Bool)
  | text (v : Text)
deriving DecidableEq, Inhabited, Repr

/-- Which sides of a method call send a stream of messages. -/
inductive StreamingMode where
  | none
  | server
  | client
  | bidi
deriving DecidableEq, Inhabited, Repr

namespace StreamingMode

def name : StreamingMode → String
  | .none => "none"
  | .server => "server"
  | .client => "client"
  | .bidi => "bidi"

def all : List StreamingMode :=
  [.none, .server, .client, .bidi]

def ofText? (text : Text) : Option StreamingMode :=
  all.find? fun mode => Text.ofString mode.name == text

end StreamingMode

namespace Catalog

structure Attribute where
  name : String
  value : Option AttributeValue
deriving DecidableEq, Inhabited, Repr

structure EnumValue where
  name : String
  value : Int
  doc : List String
deriving DecidableEq, Inhabited, Repr

/-- An enumeration; with bit flags a value is a power of two. -/
structure EnumType where
  underlying : ScalarKind
  bitFlags : Bool
  values : List EnumValue
deriving DecidableEq, Inhabited, Repr

/-- A variant of a union; tags count from one. -/
structure Variant where
  name : String
  tag : Nat
  table : Nat
  doc : List String
deriving DecidableEq, Inhabited, Repr

structure UnionType where
  variants : List Variant
deriving DecidableEq, Inhabited, Repr

/-- The values of the enumeration that tells the variants of a union apart. -/
def UnionType.discriminants (union : UnionType) : List EnumValue :=
  ⟨"NONE", 0, []⟩ :: union.variants.map fun alt => ⟨alt.name, alt.tag, alt.doc⟩

structure StructField where
  name : String
  type : FieldType
  offset : Nat
  size : Nat
  padding : Nat
  doc : List String
  attributes : List Attribute
deriving DecidableEq, Inhabited, Repr

structure StructType where
  fields : List StructField
  size : Nat
  alignment : Nat
deriving DecidableEq, Inhabited, Repr

/-- A field of a table.  A union field has a second slot for the tag of its variant. -/
structure TableField where
  name : String
  type : FieldType
  slot : Nat
  typeSlot : Option Nat
  default : DefaultValue
  required : Bool
  deprecated : Bool
  key : Bool
  doc : List String
  attributes : List Attribute
deriving DecidableEq, Inhabited, Repr

/-- A table with its fields in declaration order and its number of slots. -/
structure TableType where
  fields : List TableField
  slotCount : Nat
deriving DecidableEq, Inhabited, Repr

structure Method where
  name : String
  request : Nat
  response : Nat
  streaming : StreamingMode
  doc : List String
  attributes : List Attribute
deriving DecidableEq, Inhabited, Repr

structure ServiceType where
  methods : List Method
deriving DecidableEq, Inhabited, Repr

inductive Body where
  | enum (ty : EnumType)
  | union (ty : UnionType)
  | struct (ty : StructType)
  | table (ty : TableType)
  | service (ty : ServiceType)
deriving DecidableEq, Inhabited, Repr

structure Entry where
  id : Nat
  name : String
  scope : List String
  fullName : String
  doc : List String
  attributes : List Attribute
  span : Span
  body : Body
deriving DecidableEq, Inhabited, Repr

/-- The declarations of one scope; the scope is written with dots and may be empty. -/
structure Module where
  scope : String
  ids : List Nat
deriving DecidableEq, Inhabited, Repr

end Catalog

structure Catalog where
  entries : List Catalog.Entry
  modules : List Catalog.Module
  rootType : Option Nat
  fileIdentifier : Option Text
  fileExtension : Option Text
  declaredAttributes : List Text
deriving DecidableEq, Inhabited, Repr

namespace Catalog

variable (c : Catalog)

def entry? (id : Nat) : Option Entry :=
  c.entries[id]?

def body? (id : Nat) : Option Body :=
  (c.entry? id).map Entry.body

def find? (fullName : String) : Option Nat :=
  (c.entries.find? fun entry => entry.fullName == fullName).map Entry.id

/-- The scalar in which values of a type are stored in place: scalars and enumerations have one. -/
def scalar? : FieldType → Option ScalarKind
  | .scalar kind => some kind
  | .named id =>
    match c.body? id with
    | some (.enum ty) => some ty.underlying
    | _ => none
  | _ => none

def tables : List (Entry × TableType) :=
  c.entries.filterMap fun entry =>
    match entry.body with
    | .table ty => some (entry, ty)
    | _ => none

end Catalog

end FlatSchema
