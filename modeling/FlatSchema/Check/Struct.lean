import FlatSchema.Check.Enum
import FlatSchema.Layout

/-!
# Structs

A struct has at least one field; its fields are scalars, enumerations or
structs, without defaults and never marked as required.  First every struct
gets a shape, then all shapes are laid out together.
-/

namespace FlatSchema.Check

def maxForceAlign : Nat := 16

/-- The alignment that a literal asks for, if it is a power of two up to the greatest one. -/
def forcedAlignment? (lit : Option Literal) : Option Nat :=
  match lit.map Literal.value with
  | some (.int v) =>
    if v = 1 || v = 2 || v = 4 || v = 8 || v = 16 then some v.toNat
    else none
  | _ => none

def forceAlign (sym : Symbol) : Report (Option Nat) :=
  match Attribute.find? sym.decl.attributes "force_align" with
  | none => return none
  | some raw =>
    match forcedAlignment? raw.value with
    | some align => return some align
    | none => do
        (Problem.forceAlign sym.fullName maxForceAlign).report raw.span
        return none

def structDefault (struct : String) (f : Field) : Report Unit :=
  match f.default with
  | some lit => (Problem.structDefault struct f.name).report lit.span
  | none => return ()

def structRequired (struct : String) (f : Field) : Report Unit :=
  match Attribute.find? f.attributes "required" with
  | some raw => (Problem.structRequired struct f.name).report raw.span
  | none => return ()

variable (ctx : Context)

def isInline (ty : FieldType) : Bool :=
  match ty with
  | .scalar _ => true
  | named => ctx.isNamed .struct named || ctx.isNamed .enum named

def structFieldType (sym : Symbol) (f : Field) : Report (Option FieldType) := do
  ctx.attributes f.attributes
  structDefault sym.fullName f
  structRequired sym.fullName f
  let resolved ← ctx.fieldType sym.decl.scope f.type
  match resolved with
  | none => return none
  | some ty =>
    if isInline ctx ty then return some ty
    else do
      (Problem.structFieldType sym.fullName f.name).report f.type.span
      return none

def shapeOf (enums : EnumTypes) : Option FieldType → FieldShape Nat Nat
  | some (.scalar kind) => .inline kind.storage
  | some (.named id) =>
    match enums.lookup id with
    | some enum => .inline enum.underlying.storage
    | none => if ctx.symbols.kind? id = some .struct then .struct id else .invalid
  | _ => .invalid

structure StructDraft where
  symbol : Symbol
  fields : List Field
  types : List (Option FieldType)
  shape : StructShape Nat Nat
deriving Inhabited

def structDraft (enums : EnumTypes) (sym : Symbol) (fs : List Field) : Report StructDraft := do
  ctx.attributes sym.decl.attributes
  Report.found (repeatedFields sym.fullName [] fs)
  if fs.isEmpty then (Problem.emptyStruct sym.fullName).report sym.decl.span
  let types ← Report.forEach (structFieldType ctx sym) fs
  let forced ← forceAlign sym
  return ⟨sym, fs, types, types.map (shapeOf ctx enums), forced⟩

def structDrafts (enums : EnumTypes) : Report (List StructDraft) := do
  let drafts ← Report.forEach
    (fun sym : Symbol =>
      match sym.decl.body with
      | .struct fs => do
          let draft ← structDraft ctx enums sym fs
          return some draft
      | _ => return none)
    ctx.symbols.entries
  return drafts.filterMap id

def placedField (f : Field) (ty : FieldType) (place : Placement Nat) : Catalog.StructField where
  name := f.name
  type := ty
  offset := place.offset
  size := place.size
  padding := place.padding
  doc := f.doc
  attributes := f.attributes.map Attribute.toCatalog

def placedFields : List Field → List (Option FieldType) → List (Placement Nat) →
    List Catalog.StructField
  | f :: fs, some ty :: types, place :: places =>
    placedField f ty place :: placedFields fs types places
  | _ :: fs, none :: types, _ :: places => placedFields fs types places
  | _, _, _ => []

def structTypes (drafts : List StructDraft) (cyclic : List Nat) : List (Nat × Catalog.StructType) :=
  let layouts := StructLayout.ofShapes (drafts.map fun draft => (draft.symbol.id, draft.shape))
  drafts.filterMap fun draft =>
    let id := draft.symbol.id
    if cyclic.contains id then none
    else
      (layouts.lookup id).map fun layout =>
        (id, ⟨placedFields draft.fields draft.types layout.fields, layout.size,
          layout.alignment⟩)

end FlatSchema.Check
