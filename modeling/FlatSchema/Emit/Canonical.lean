import FlatSchema.Catalog
import FlatSchema.Emit.Artifact
import FlatSchema.Symbols

/-!
# Canonical schemas

A catalog written back as one schema file: the declared attributes, then each
scope with its declarations, and last the directives.  A name of the scope in
effect is written alone, any other with its scope.  Defaults that are zero,
false or absent are left out, and flags are written as bit positions.
-/

namespace FlatSchema

namespace Canonical

def span (path : Text) : Span :=
  ⟨path, Position.start, Position.start⟩

variable (c : Catalog)

def entryOf (id : Nat) : Except EmitError Catalog.Entry :=
  match c.entry? id with
  | some e => .ok e
  | none => .error (.unknownEntry id)

def scopeOf (e : Catalog.Entry) : String :=
  ".".intercalate e.scope

def nameIn (ns : String) (id : Nat) : Except EmitError String := do
  let e ← entryOf c id
  return if scopeOf e = ns then e.name else e.fullName

def typeExpr (c : Catalog) (ns : String) (span : Span) : FieldType → Except EmitError TypeExpr
  | .scalar kind => return .scalar kind span
  | .string => return .string span
  | .vector elem => do return .vector (← typeExpr c ns span elem) span
  | .named id => do return .named (← nameIn c ns id) span

def literalOf : AttributeValue → LiteralValue
  | .int v => .int v
  | .float v => .float v
  | .bool v => .bool v
  | .text v => .string v

def attributesOf (span : Span) (attrs : List Catalog.Attribute) : List Attribute :=
  attrs.map fun e =>
    ⟨e.name, e.value.map fun v => ⟨literalOf v, span⟩, span⟩

/-- A default as it is written, unless it is what the field has anyway. -/
def defaultOf : DefaultValue → Option LiteralValue
  | .int v => if v = 0 then none else some (.int v)
  | .float v =>
    if v.isZero && !v.isNegative then none else some (.float v)
  | .bool v => if v then some (.bool true) else none
  | .absent => none

def enumNumber (bitFlags : Bool) (v : Int) : Int :=
  if bitFlags then (v.toNat.log2 : Int) else v

def tableField (ns : String) (span : Span) (f : Catalog.TableField) : Except EmitError Field := do
  let ty ← typeExpr c ns span f.type
  return ⟨f.name, ty, (defaultOf f.default).map fun v => ⟨v, span⟩,
    attributesOf span f.attributes, f.doc, span⟩

def structField (ns : String) (span : Span) (f : Catalog.StructField) : Except EmitError Field := do
  let ty ← typeExpr c ns span f.type
  return ⟨f.name, ty, none, attributesOf span f.attributes, f.doc, span⟩

def bodyOf (ns : String) (span : Span) : Catalog.Body → Except EmitError DeclBody
  | .enum ty =>
    return .enum (.scalar ty.underlying span) (ty.values.map fun v =>
      ⟨v.name, some (enumNumber ty.bitFlags v.value), v.doc, span⟩)
  | .union ty => do
      let alts ← ty.variants.mapM fun alt => do
        let name ← nameIn c ns alt.table
        return (⟨name, alt.doc, span⟩ : Variant)
      return .union alts
  | .struct ty => do return .struct (← ty.fields.mapM (structField c ns span))
  | .table ty => do return .table (← ty.fields.mapM (tableField c ns span))
  | .service ty => do
      let methods ← ty.methods.mapM fun method => do
        let req ← nameIn c ns method.request
        let resp ← nameIn c ns method.response
        return (⟨method.name, req, resp, attributesOf span method.attributes,
          method.doc, span⟩ : Method)
      return .service methods

def declOf (ns : String) (id : Nat) : Except EmitError Item := do
  let e ← entryOf c id
  let body ← bodyOf c ns e.span e.body
  return .declaration ⟨e.name, e.scope, e.doc,
    attributesOf e.span e.attributes, body, e.span⟩

def scopeParts (ns : String) : List String :=
  if ns.isEmpty then [] else (ns.toList.splitOn '.').map String.ofList

/-- The items of scopes, given the scope in effect before them, and the scope in effect after. -/
def scopeItems (c : Catalog) (place : Span) (current : String) :
    List Catalog.Module → Except EmitError (List Item × String)
  | [] => return ([], current)
  | group :: rest =>
    if group.ids.isEmpty then scopeItems c place current rest
    else do
      let enter :=
        if group.scope = current then [] else [Item.enterScope (scopeParts group.scope) place]
      let decls ← group.ids.mapM (declOf c group.scope)
      let (tail, last) ← scopeItems c place group.scope rest
      return (enter ++ decls ++ tail, last)

def items (place : Span) : Except EmitError (List Item) := do
  let attrs := c.declaredAttributes.map fun name => Item.declareAttribute name place
  let (decls, ns) ← scopeItems c place "" c.modules
  let root ← c.rootType.toList.mapM fun id => do
    return Item.rootType (← nameIn c ns id) (scopeParts ns) place
  let ident := c.fileIdentifier.toList.map fun v => Item.fileIdentifier v place
  let extension := c.fileExtension.toList.map fun v => Item.fileExtension v place
  return attrs ++ decls ++ root ++ ident ++ extension

end Canonical

def Catalog.emitCanonical (c : Catalog) (options : EmitOptions) :
    Except EmitError (List Artifact) := do
  let path : Text := options.rootModule ++ ".fbs"
  let place := Canonical.span path
  let items ← Canonical.items c place
  return [⟨.fbs, path, (Schema.mk path items place).print options.style⟩]

end FlatSchema
