import FlatSchema.Check.Context

/-!
# Unions

A union lists between one and 255 tables, none twice.  A variant is named like
its table as written, with underscores for dots, and its tag is its place in
the list, from one.  The enumeration of the tags takes a name of its own, which
must be free.
-/

namespace FlatSchema.Check

def maxVariants : Nat := 255

def discriminantName (union : String) : String :=
  union ++ "Type"

def variantName (t : String) : String :=
  String.ofList (t.toList.map fun char => if char = '.' then '_' else char)

def discriminantClash (ctx : Context) (sym : Symbol) : Report Unit :=
  let name := qualify sym.decl.scope (discriminantName sym.decl.name)
  match ctx.symbols.symbol? name with
  | some other =>
    (Problem.discriminantClash sym.fullName other.fullName other.decl.span.locate).report
      sym.decl.span
  | none => return ()

def unionVariant (ctx : Context) (sym : Symbol) (accepted : List Catalog.Variant)
    (alt : Variant) : Report (List Catalog.Variant) := do
  let resolved ← ctx.symbols.resolved alt.typeName sym.decl.scope alt.span
  match resolved with
  | none => return accepted
  | some t =>
    let name := variantName alt.typeName
    if ctx.symbols.kind? t ≠ some .table then do
      (Problem.variantNotTable sym.fullName alt.typeName).report alt.span
      return accepted
    else if name = "NONE" || accepted.any fun other => other.name = name || other.table = t
    then do
      (Problem.repeatedVariant sym.fullName alt.typeName).report alt.span
      return accepted
    else return accepted ++ [⟨name, accepted.length + 1, t, alt.doc⟩]

def unionType (ctx : Context) (sym : Symbol) (alts : List Variant) :
    Report (Option Catalog.UnionType) := do
  ctx.attributes sym.decl.attributes
  discriminantClash ctx sym
  if alts.isEmpty then do
    (Problem.emptyUnion sym.fullName).report sym.decl.span
    return none
  else if maxVariants < alts.length then do
    (Problem.crowdedUnion sym.fullName maxVariants).report sym.decl.span
    return none
  else do
    let accepted ← Report.through (unionVariant ctx sym) [] alts
    return some ⟨accepted⟩

end FlatSchema.Check
