import FlatSchema.Catalog
import FlatSchema.Number.Decimal
import FlatSchema.Symbols

/-!
# What every check needs

The symbols of the schemas and the attributes they declare.  Attributes are
known when they are built in or declared, and types are resolved in the scope
of the declaration in which they are written.
-/

namespace FlatSchema

def LiteralValue.describe : LiteralValue → String
  | .int v => toString v
  | .float v => v.toText
  | .bool v => if v then "true" else "false"
  | .string v => Quoted.quote v
  | .name raw => raw

def LiteralValue.toAttributeValue : LiteralValue → AttributeValue
  | .int v => .int v
  | .float v => .float v
  | .bool v => .bool v
  | .string v => .text v
  | .name raw => .text raw

def Attribute.toCatalog (raw : Attribute) : Catalog.Attribute :=
  ⟨raw.name, raw.value.map fun lit => lit.value.toAttributeValue⟩

def Attribute.has (attributes : List Attribute) (name : String) : Bool :=
  (Attribute.find? attributes name).isSome

namespace Check

def builtinAttributes : List String :=
  ["id", "deprecated", "required", "key", "streaming", "force_align", "bit_flags",
    "original_order", "idempotent"]

structure Context where
  symbols : SymbolTable
  declared : List Text
deriving Inhabited

namespace Context

def knows (ctx : Context) (name : String) : Bool :=
  builtinAttributes.contains name || ctx.declared.contains (Text.ofString name)

def attributes (ctx : Context) (raw : List Attribute) : Report Unit :=
  Report.found ((raw.filter fun e => !ctx.knows e.name).map fun e =>
    (Problem.unknownAttribute e.name).diagnostic e.span)

def isNamed (ctx : Context) (kind : DeclKind) : FieldType → Bool
  | .named id => ctx.symbols.kind? id = some kind
  | _ => false

def vectorOf (ctx : Context) (span : Span) (elem : FieldType) : Report (Option FieldType) :=
  if ctx.isNamed .union elem then do
    Problem.vectorOfUnions.report span
    return none
  else if ctx.isNamed .service elem then do
    Problem.vectorOfServices.report span
    return none
  else return some (.vector elem)

def fieldType (ctx : Context) (ns : List String) : TypeExpr → Report (Option FieldType)
  | .scalar kind _ => return some (.scalar kind)
  | .string _ => return some .string
  | .named name span => do
      let id ← ctx.symbols.resolved name ns span
      return id.map FieldType.named
  | .vector elem span => do
      match elem with
      | .vector .. => do
          Problem.nestedVector.report span
          return none
      | plain => do
          let resolved ← ctx.fieldType ns plain
          match resolved with
          | some ty => ctx.vectorOf span ty
          | none => return none

end Context

def repeatedFields (owner : String) (seen : List String) : List Field → List Diagnostic
  | [] => []
  | f :: rest =>
    let tail := repeatedFields owner (seen ++ [f.name]) rest
    if seen.contains f.name then
      (Problem.duplicateField f.name owner).diagnostic f.span :: tail
    else tail

def entryOf (sym : Symbol) (body : Catalog.Body) : Catalog.Entry where
  id := sym.id
  name := sym.decl.name
  scope := sym.decl.scope
  fullName := sym.fullName
  doc := sym.decl.doc
  attributes := sym.decl.attributes.map Attribute.toCatalog
  span := sym.decl.span
  body := body

end Check

end FlatSchema
