import FlatSchema.Proofs.CheckedStructs

/-!
# Checked catalogs

A set of schemas without an error has a catalog, and the entries of the
catalog correspond one to one to the symbols.  `KeepsBody` says for each kind
of declaration what its entry keeps; all later statements about accepted
catalogs start from it.
-/

namespace FlatSchema

open Catalog (Body ServiceType TableType UnionType)
open Report (clean_bind clean_forEach value_bind value_forEach value_pure)

variable {ctx : Context} {e : Option Text} {schemas : List Schema}

/-- The kind of an accepted body. -/
def Catalog.Body.kind : Body → DeclKind
  | .enum _ => .enum
  | .union _ => .union
  | .struct _ => .struct
  | .table _ => .table
  | .service _ => .service

namespace Check

/-- What the accepted body of a symbol keeps of the written one. -/
inductive KeepsBody (ctx : Context) (sym : Symbol) : DeclBody → Body → Prop where
  | enum {base : TypeExpr} {vs : List EnumValue} {ty : Catalog.EnumType}
      (ok : (enumTypes ctx).value.lookup sym.id = some ty)
      (kept : List.Forall₂ KeepsValue vs ty.values) : KeepsBody ctx sym (.enum base vs) (.enum ty)
  | union {alts : List Variant} {ty : UnionType}
      (kept : List.Forall₂ (KeepsVariant ctx sym.decl.scope) alts ty.variants)
      (distinct : DistinctVariants ty.variants) (short : ty.variants.length ≤ maxVariants) :
      KeepsBody ctx sym (.union alts) (.union ty)
  | struct {fs : List Field} {ty : Catalog.StructType}
      (kept : KeepsStruct ctx (enumTypes ctx).value sym fs ty) :
      KeepsBody ctx sym (.struct fs) (.struct ty)
  | table {fs : List Field} {ty : TableType}
      (kept : KeepsTable ctx (enumTypes ctx).value sym.decl.scope fs ty) :
      KeepsBody ctx sym (.table fs) (.table ty)
  | service {methods : List Method} {ty : ServiceType}
      (kept : List.Forall₂ (KeepsMethod ctx sym.decl.scope) methods ty.methods) :
      KeepsBody ctx sym (.service methods) (.service ty)

theorem KeepsBody.kind_eq (keeps : KeepsBody ctx sym raw body) : body.kind = raw.kind := by
  cases keeps <;> rfl

/-! ## Unions, tables and services by number -/

section

variable (ctx : Context)

/-- The union that a symbol declares, if it is accepted. -/
def unionOf (sym : Symbol) : Option UnionType :=
  match sym.decl.body with
  | .union alts => (unionType ctx sym alts).value
  | _ => none

theorem unionTypes_value : (unionTypes ctx).value = byNumber (unionOf ctx) ctx.symbols.entries := by
  unfold unionTypes
  simp only [value_bind, value_forEach, value_pure, List.filterMap_map]
  congr 1
  funext sym
  simp only [Function.comp_apply, id_eq, unionOf]
  cases sym.decl.body <;> rfl

/-- The table that a symbol declares. -/
def tableOf (enums : EnumTypes) (sym : Symbol) : Option TableType :=
  match sym.decl.body with
  | .table fs => some (tableType ctx enums sym fs).value
  | _ => none

theorem tableTypes_value (enums : EnumTypes) :
    (tableTypes ctx enums).value = byNumber (tableOf ctx enums) ctx.symbols.entries := by
  unfold tableTypes
  simp only [value_bind, value_forEach, value_pure, List.filterMap_map]
  congr 1
  funext sym
  simp only [Function.comp_apply, id_eq, tableOf]
  cases sym.decl.body <;> rfl

/-- The service that a symbol declares. -/
def serviceOf (sym : Symbol) : Option ServiceType :=
  match sym.decl.body with
  | .service methods => some (serviceType ctx sym methods).value
  | _ => none

theorem serviceTypes_value :
    (serviceTypes ctx).value = byNumber (serviceOf ctx) ctx.symbols.entries := by
  unfold serviceTypes
  simp only [value_bind, value_forEach, value_pure, List.filterMap_map]
  congr 1
  funext sym
  simp only [Function.comp_apply, id_eq, serviceOf]
  cases sym.decl.body <;> rfl

end

/-! ## All declarations together -/

/-- The parts of a check that reports no error. -/
theorem all_of_clean (clean : (all ctx e schemas).Clean) :
    ctx.symbols.structCycles.Clean ∧ (enumTypes ctx).Clean ∧ (unionTypes ctx).Clean ∧
      (structDrafts ctx (enumTypes ctx).value).Clean ∧
      (tableTypes ctx (enumTypes ctx).value).Clean ∧ (serviceTypes ctx).Clean := by
  simp only [all, clean_bind, Report.clean_pure, and_true] at clean
  grind

/-- Without an error every symbol has a body that keeps what is written. -/
theorem body?_of_clean (reg : ctx.symbols.Regular)
    (clean : (all ctx e schemas).Clean) (mem : sym ∈ ctx.symbols.entries) :
    ∃ body,
      (all ctx e schemas).value.body? sym = some body ∧ KeepsBody ctx sym sym.decl.body body := by
  rcases all_of_clean clean with ⟨cycles, enums, unions, drafts, tables, services⟩
  have ok := allAccepted_of_clean reg enums
  have cyclic : ctx.symbols.structCycles.value = [] := (reg.exists_ordered cycles).1
  unfold all Checked.body?
  simp only [value_bind, value_pure, Decl.kind]
  cases body : sym.decl.body with
  | enum base vs =>
    simp only [enumTypes, clean_bind, clean_forEach] at enums
    have own := enums.1 sym mem
    simp only [body, clean_bind] at own
    rcases enumType_of_clean own.1 with ⟨ty, v, kept⟩
    have ok : (enumTypes ctx).value.lookup sym.id = some ty := by
      rw [enumTypes_value, lookup_byNumber reg mem, enumOf, body]
      exact v
    refine ⟨.enum ty, ?_, .enum ok kept⟩
    rw [ok]
    rfl
  | union alts =>
    simp only [unionTypes, clean_bind, clean_forEach] at unions
    have own := unions.1 sym mem
    simp only [body, clean_bind] at own
    rcases unionType_of_clean own.1 with ⟨ty, v, kept, distinct, short⟩
    refine ⟨.union ty, ?_, .union kept distinct short⟩
    rw [unionTypes_value, lookup_byNumber reg mem, unionOf, body]
    exact congrArg (Option.map Body.union) v
  | struct fs =>
    rcases structOf_of_clean reg ok cycles drafts mem body with
      ⟨ty, v, kept⟩
    refine ⟨.struct ty, ?_, .struct kept⟩
    rw [cyclic, structTypes_value, lookup_byNumber reg mem, v]
    rfl
  | table fs =>
    simp only [tableTypes, clean_bind, clean_forEach] at tables
    have own := tables.1 sym mem
    simp only [body, clean_bind] at own
    refine ⟨.table _, ?_, .table (tableType_of_clean ok own.1)⟩
    rw [tableTypes_value, lookup_byNumber reg mem, tableOf, body]
    rfl
  | service methods =>
    simp only [serviceTypes, clean_bind, clean_forEach] at services
    have own := services.1 sym mem
    simp only [body, clean_bind] at own
    refine ⟨.service _, ?_, .service (serviceType_of_clean own.1)⟩
    rw [serviceTypes_value, lookup_byNumber reg mem, serviceOf, body]
    rfl

/-- The entry of a symbol, with a body that keeps what is written. -/
def KeepsEntry (ctx : Context) (sym : Symbol) (e : Catalog.Entry) : Prop :=
  ∃ body,
    e = entryOf sym body ∧
      KeepsBody ctx sym sym.decl.body body

/-- Without an error all symbols have entries. -/
theorem entries_of_clean (reg : ctx.symbols.Regular) (clean : (all ctx e schemas).Clean) :
    ∃ es,
      (ctx.symbols.entries.mapM fun sym =>
          ((all ctx e schemas).value.body? sym).map (entryOf sym)) = some es ∧
        List.Forall₂ (KeepsEntry ctx) ctx.symbols.entries es := by
  have each :
      ∀ sym ∈ ctx.symbols.entries, ∃ made,
        ((all ctx e schemas).value.body? sym).map (entryOf sym) = some made ∧
          KeepsEntry ctx sym made := by
    intro sym mem
    rcases body?_of_clean reg clean mem with ⟨body, v, keeps⟩
    exact ⟨entryOf sym body, by rw [v]; rfl, body, rfl, keeps⟩
  rcases exists_forall₂ each with ⟨es, all⟩
  refine ⟨es, ?_, all.imp fun _ _ related => related.2⟩
  exact mapM_eq_some_iff.mpr (all.imp fun _ _ related => related.1)

end Check

namespace Catalog

/-- Where the check of a set of schemas looks things up. -/
def checkContext (schemas : List Schema) (symbols : SymbolTable) : Check.Context :=
  ⟨symbols, Check.declaredAttributes (Schema.sortByPath schemas)⟩

/-- A catalog with an entry for each symbol, in modules by scope, of structs that do not contain
themselves. -/
structure Keeps (ctx : Check.Context) (c : Catalog) : Prop where
  regular : ctx.symbols.Regular
  entries : List.Forall₂ (Check.KeepsEntry ctx) ctx.symbols.entries c.entries
  modules_eq : c.modules = Check.modulesOf c.entries
  cycleFree : ctx.symbols.structCycles.Clean

/-- The verdict on a set of schemas: rejected where an error is reported, else accepted with a
catalog that keeps them. -/
theorem ofSymbols_value (schemas : List Schema) (reg : symbols.Regular)
    (e : Option Text) (old : List Diagnostic) :
    let report := ofSymbols schemas symbols e old
    (DiagnosticAt.hasErrors (old ++ report.diagnostics) = true ∧ report.value = .rejected) ∨
      ∃ c,
        DiagnosticAt.hasErrors (old ++ report.diagnostics) = false ∧
          report.value = .accepted c ∧
          Keeps (checkContext schemas symbols) c := by
  intro report
  cases errors : DiagnosticAt.hasErrors (old ++ report.diagnostics) with
  | true =>
    refine .inl ⟨rfl, ?_⟩
    simp only [report, ofSymbols] at errors ⊢
    rw [if_pos errors]
  | false =>
    refine .inr ?_
    have clean :
        (Check.all (checkContext schemas symbols) e (Schema.sortByPath schemas)).Clean := by
      rw [DiagnosticAt.hasErrors_append, Bool.or_eq_false_iff] at errors
      exact errors.2
    have contextRegular : (checkContext schemas symbols).symbols.Regular := reg
    rcases Check.entries_of_clean contextRegular clean with ⟨es, v, kept⟩
    let hit :=
      (Check.all (checkContext schemas symbols) e (Schema.sortByPath schemas)).value.directives
    have ok :
        report.value =
          .accepted ⟨es, Check.modulesOf es, hit.rootType, hit.fileIdentifier,
            hit.fileExtension, (checkContext schemas symbols).declared⟩ := by
      simp only [report, ofSymbols] at errors ⊢
      unfold checkContext at v
      rw [if_neg (by rw [errors]; exact Bool.false_ne_true), v]
      rfl
    exact ⟨_, rfl, ok, contextRegular, kept, rfl, (Check.all_of_clean clean).1⟩

end Catalog

end FlatSchema
