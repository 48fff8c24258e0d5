import FlatSchema.Check.Service
import FlatSchema.Check.Struct
import FlatSchema.Check.Table
import FlatSchema.Check.Union
import FlatSchema.Schema.Parser
import FlatSchema.Symbols.Cycle

/-!
# Checking schemas

Schemas are checked together: first the containment of structs, then
enumerations, unions, structs, tables and services, and last the directives of
each file.  All problems are reported.  If there are none, the checked
declarations form a catalog.
-/

namespace FlatSchema

namespace Check

/-- The attributes that schemas declare, each once, in the order of their first declaration. -/
def declaredAttributes (schemas : List Schema) : List Text :=
  let names := schemas.flatMap fun sch => sch.items.filterMap fun item =>
    match item with
    | .declareAttribute name _ => some name
    | _ => none
  names.eraseDups

structure Directives where
  rootType : Option Nat
  fileIdentifier : Option Text
  fileExtension : Option Text
deriving Inhabited

def isFileIdentifier (v : Text) : Bool :=
  v.length = 4 && v.units.all (· < 0x80)

variable (ctx : Context)

/-- Check one item of a file for directives.  They take effect only if the file is in force. -/
def directive (inForce : Bool) (s : Directives) (item : Item) : Report Directives :=
  match item with
  | .rootType name ns span => do
      let resolved ← ctx.symbols.resolved name ns span
      match resolved with
      | none => return s
      | some id =>
        if ctx.symbols.kind? id = some .table then
          return if inForce then { s with rootType := some id } else s
        else do
          (Problem.rootNotTable name).report span
          return s
  | .fileIdentifier v span =>
    if isFileIdentifier v then
      return if inForce then { s with fileIdentifier := some v } else s
    else do
      (Problem.fileIdentifier v).report span
      return s
  | .fileExtension v _ =>
    return if inForce then { s with fileExtension := some v } else s
  | _ => return s

/-- Check the directives of every file.  With an entry file only its directives are in force;
else a later directive overrides an earlier one. -/
def directives (e : Option Text) (schemas : List Schema) : Report Directives :=
  Report.through
    (fun s sch =>
      Report.through (directive ctx (e.all (· == sch.path))) s sch.items)
    ⟨none, none, none⟩ schemas

def unionTypes : Report (List (Nat × Catalog.UnionType)) := do
  let checked ← Report.forEach
    (fun sym : Symbol =>
      match sym.decl.body with
      | .union alts => do
          let ty ← unionType ctx sym alts
          return ty.map fun ty => (sym.id, ty)
      | _ => return none)
    ctx.symbols.entries
  return checked.filterMap id

def tableTypes (enums : EnumTypes) : Report (List (Nat × Catalog.TableType)) := do
  let checked ← Report.forEach
    (fun sym : Symbol =>
      match sym.decl.body with
      | .table fs => do
          let ty ← tableType ctx enums sym fs
          return some (sym.id, ty)
      | _ => return none)
    ctx.symbols.entries
  return checked.filterMap id

def serviceTypes : Report (List (Nat × Catalog.ServiceType)) := do
  let checked ← Report.forEach
    (fun sym : Symbol =>
      match sym.decl.body with
      | .service methods => do
          let ty ← serviceType ctx sym methods
          return some (sym.id, ty)
      | _ => return none)
    ctx.symbols.entries
  return checked.filterMap id

structure Checked where
  enums : EnumTypes
  unions : List (Nat × Catalog.UnionType)
  structs : List (Nat × Catalog.StructType)
  tables : List (Nat × Catalog.TableType)
  services : List (Nat × Catalog.ServiceType)
  directives : Directives
deriving Inhabited

def Checked.body? (checked : Checked) (sym : Symbol) : Option Catalog.Body :=
  match sym.decl.kind with
  | .enum => (checked.enums.lookup sym.id).map Catalog.Body.enum
  | .union => (checked.unions.lookup sym.id).map Catalog.Body.union
  | .struct => (checked.structs.lookup sym.id).map Catalog.Body.struct
  | .table => (checked.tables.lookup sym.id).map Catalog.Body.table
  | .service => (checked.services.lookup sym.id).map Catalog.Body.service

def all (e : Option Text) (schemas : List Schema) : Report Checked := do
  let cyclic ← ctx.symbols.structCycles
  let enums ← enumTypes ctx
  let unions ← unionTypes ctx
  let drafts ← structDrafts ctx enums
  let structs := structTypes drafts cyclic
  let tables ← tableTypes ctx enums
  let services ← serviceTypes ctx
  let hit ← directives ctx e schemas
  return ⟨enums, unions, structs, tables, services, hit⟩

def addToModule (modules : List Catalog.Module) (e : Catalog.Entry) : List Catalog.Module :=
  let ns := ".".intercalate e.scope
  if modules.any fun cand => cand.scope == ns then
    modules.map fun cand =>
      if cand.scope == ns then { cand with ids := cand.ids ++ [e.id] }
      else cand
  else modules ++ [⟨ns, [e.id]⟩]

def modulesOf (es : List Catalog.Entry) : List Catalog.Module :=
  es.foldl addToModule []

end Check

inductive Verdict where
  | accepted (c : Catalog)
  | rejected
  /-- A declaration was not accepted though no error says why. -/
  | incomplete
deriving DecidableEq, Inhabited, Repr

namespace Catalog

/-- Check schemas whose symbols are known.  `earlier` holds what earlier phases found: an error
there rejects the schemas too. -/
def ofSymbols (schemas : List Schema) (symbols : SymbolTable) (e : Option Text)
    (earlier : List Diagnostic) : Report Verdict :=
  let sorted := Schema.sortByPath schemas
  let ctx : Check.Context := ⟨symbols, Check.declaredAttributes sorted⟩
  let checked := Check.all ctx e sorted
  let verdict : Verdict :=
    if DiagnosticAt.hasErrors (earlier ++ checked.diagnostics) then .rejected
    else
      match symbols.entries.mapM fun sym =>
        (checked.value.body? sym).map (Check.entryOf sym) with
      | none => .incomplete
      | some es =>
        .accepted ⟨es, Check.modulesOf es, checked.value.directives.rootType,
          checked.value.directives.fileIdentifier, checked.value.directives.fileExtension,
          ctx.declared⟩
  ⟨verdict, checked.diagnostics⟩

end Catalog

/-- The schemas of the sources that can be read, with what was found wrong in any. -/
def Schema.ofSources (sources : List Source) : Report (List Schema) := do
  let parsed ← Report.forEach
    (fun src : Source =>
      let parsed := src.parse
      ⟨parsed.schema, parsed.diagnostics⟩)
    sources
  return parsed.filterMap id

def Catalog.ofSources (sources : List Source) (e : Option Text) : Report Verdict :=
  let symbols := do
    let schemas ← Schema.ofSources sources
    let symbols ← SymbolTable.ofSchemas schemas
    return (schemas, symbols)
  let (schemas, t) := symbols.value
  let verdict := Catalog.ofSymbols schemas t e symbols.diagnostics
  ⟨verdict.value, symbols.diagnostics ++ verdict.diagnostics⟩

end FlatSchema
