import FlatSchema.Proofs.ClosedCatalog
import FlatSchema.Proofs.RestatedStructs

/-!
# Catalogs that are stated again

A symbol restates another if it has its number and its name and a body that
comes to the same.  If this holds along two tables of symbols, names mean the
same in both, each pass of the check is repeated, and so is the check as a
whole.  The second table then has the catalog of the first, apart from the
places of its entries.
-/

namespace FlatSchema

variable {ctx : Context} {sym : Symbol}

theorem TypeExpr.plainName?_unplaced (ty : TypeExpr) : ty.unplaced.plainName? = ty.plainName? := by
  cases ty <;> rfl

namespace Check

open Report

/-- A body that is stated again, kind by kind. -/
inductive RestatedBody (ctx : Context) (sym : Symbol) : DeclBody → DeclBody → Prop where
  | enum {base base' : TypeExpr} {vs vs' : List EnumValue} {ty : Catalog.EnumType}
      (ok : (enumType ctx sym base vs).value = some ty)
      (sameUnderlying : base'.unplaced = .scalar ty.underlying default)
      (restated : List.Forall₂ (RestatedValue ty.bitFlags) ty.values vs') :
      RestatedBody ctx sym (.enum base vs) (.enum base' vs')
  | union {alts variantsAgain : List Variant}
      (restated : List.Forall₂ RestatedVariant alts variantsAgain) :
      RestatedBody ctx sym (.union alts) (.union variantsAgain)
  | struct {fs fs' : List Field} (restated : List.Forall₂ RestatedStructField fs fs') :
      RestatedBody ctx sym (.struct fs) (.struct fs')
  | table {fs fs' : List Field}
      (restated :
        List.Forall₂ (RestatedTableField ctx (enumTypes ctx).value sym.decl.scope) fs fs') :
      RestatedBody ctx sym (.table fs) (.table fs')
  | service {methods methods' : List Method}
      (restated : List.Forall₂ RestatedMethod methods methods') :
      RestatedBody ctx sym (.service methods) (.service methods')

/-- Two symbols that declare the same. -/
structure RestatedSymbol (ctx : Context) (sym again : Symbol) : Prop extends
    RestatedHead sym again where
  body : RestatedBody ctx sym sym.decl.body again.decl.body

theorem RestatedSymbol.kind_eq (same : RestatedSymbol ctx sym again) :
    again.decl.kind = sym.decl.kind := by
  have body := same.body
  unfold Decl.kind
  generalize sym.decl.body = raw, again.decl.body = restated at body ⊢
  cases body <;> rfl

/-- Two contexts whose symbols declare the same one by one. -/
structure RestatedContext (ctx again : Context) : Prop where
  symbols : List.Forall₂ (RestatedSymbol ctx) ctx.symbols.entries again.symbols.entries
  declared_eq : again.declared = ctx.declared

namespace RestatedContext

variable {ctx ctx' : Context} (restated : RestatedContext ctx ctx')
include restated

/-! ## Names -/

/-- What follows from the symbol of a number follows again. -/
theorem getElem?_eq {α : Type} {ofSymbol ofAgain : Symbol → α}
    (agree : ∀ sym again, RestatedSymbol ctx sym again → ofAgain again = ofSymbol sym) (id : Nat) :
    ctx'.symbols.entries[id]?.map ofAgain = ctx.symbols.entries[id]?.map ofSymbol := by
  rw [← List.getElem?_map, ← List.getElem?_map, map_eq_of_forall₂ restated.symbols agree]

/-- Names mean the same. -/
theorem agrees : ctx.Agrees ctx' where
  declared_eq := restated.declared_eq
  find?_eq := by
    intro name
    have symbols := restated.symbols
    unfold SymbolTable.find? SymbolTable.symbol?
    generalize ctx.symbols.entries = es at symbols ⊢
    generalize ctx'.symbols.entries = entriesAgain at symbols ⊢
    induction symbols with
    | nil => rfl
    | cons hd _ ih =>
      rw [List.find?_cons, List.find?_cons, hd.fullName_eq]
      split
      · rw [Option.map_some, Option.map_some, hd.id_eq]
      · exact ih
  kind?_eq := restated.getElem?_eq fun _ _ same => same.kind_eq
  fullName_eq := by
    intro id
    have names := restated.getElem?_eq (fun _ _ same => same.fullName_eq) id
    grind [SymbolTable.fullName]

/-! ## Structs in structs -/

theorem heldStruct?_eq (same : again.type.unplaced = raw.type.unplaced) :
    ctx'.symbols.heldStruct? ns again = ctx.symbols.heldStruct? ns raw := by
  have plainName : again.type.plainName? = raw.type.plainName? := by
    rw [← TypeExpr.plainName?_unplaced again.type, same, TypeExpr.plainName?_unplaced]
  unfold SymbolTable.heldStruct?
  simp only [plainName, restated.agrees.resolve_eq, restated.agrees.kind?_eq]

theorem heldStructs_eq (same : RestatedSymbol ctx sym again) :
    ctx'.symbols.heldStructs again.decl = ctx.symbols.heldStructs sym.decl := by
  have body := same.body
  unfold SymbolTable.heldStructs
  rw [same.scope_eq]
  generalize sym.decl.body = raw, again.decl.body = restatedBody at body ⊢
  cases body with
  | struct fs =>
    dsimp only
    induction fs with
    | nil => rfl
    | cons hd _ ih =>
      rw [List.filterMap_cons, List.filterMap_cons, restated.heldStruct?_eq hd.type_eq, ih]
  | enum | union | table | service => rfl

theorem contained_eq (id : Nat) : ctx'.symbols.contained id = ctx.symbols.contained id := by
  have held := restated.getElem?_eq (fun _ _ same => restated.heldStructs_eq same) id
  grind [SymbolTable.contained, SymbolTable.heldStructs]

theorem structIds_eq : ctx'.symbols.structIds = ctx.symbols.structIds := by
  have symbols := restated.symbols
  unfold SymbolTable.structIds
  generalize ctx.symbols.entries = es at symbols ⊢
  generalize ctx'.symbols.entries = entriesAgain at symbols ⊢
  induction symbols with
  | nil => rfl
  | cons hd _ ih =>
    rw [List.filter_cons, List.filter_cons, hd.kind_eq]
    split
    · rw [List.map_cons, List.map_cons, hd.id_eq, ih]
    · exact ih

theorem structCycles_repeats : Repeats (· = ·) ctx.symbols.structCycles ctx'.symbols.structCycles :=
  SymbolTable.structCycles_repeats restated.contained_eq restated.symbols.length_eq.symm
    restated.structIds_eq

/-! ## Passes -/

/-- A pass over all symbols, which keeps what is found for some, repeats if its steps do. -/
theorem pass {step step' : Symbol → Report (Option α)} (each :
      ∀ sym again, RestatedSymbol ctx sym again →
        Repeats (Option.Rel rel) (step sym) (step' again)) :
    Repeats (List.Forall₂ rel)
      (do
        let checked ← Report.forEach step ctx.symbols.entries
        return checked.filterMap id)
      (do
        let checked ← Report.forEach step' ctx'.symbols.entries
        return checked.filterMap id) := by
  refine .bind (.forEach (restated.symbols.imp each)) fun _ hit => ?_
  exact .pure (List.rel_filterMap (fun _ _ related => related) hit)

/-- A pass whose steps give the same gives the same. -/
theorem pass_eq {step step' : Symbol → Report (Option α)}
    (each : ∀ sym again, RestatedSymbol ctx sym again → Repeats (· = ·) (step sym) (step' again)) :
    Repeats (· = ·)
      (do
        let checked ← Report.forEach step ctx.symbols.entries
        return checked.filterMap id)
      (do
        let checked ← Report.forEach step' ctx'.symbols.entries
        return checked.filterMap id) := by
  refine .bind (.forEach (restated.symbols.imp each)) fun _ hit => ?_
  rw [List.forall₂_eq_eq_eq] at hit
  rw [hit]
  exact .pure rfl

theorem enumTypes_repeats : Repeats (· = ·) (enumTypes ctx) (enumTypes ctx') := by
  refine restated.pass_eq ?_
  intro sym again same
  have body := same.body
  generalize sym.decl.body = raw, again.decl.body = restatedBody at body ⊢
  cases body with
  | enum ok sameUnderlying vs =>
    refine .bind (enumType_repeats restated.agrees same.toRestatedHead ok sameUnderlying vs) ?_
    intro _ hit
    rw [hit, same.id_eq]
    exact .pure rfl
  | union | struct | table | service => exact .pure rfl

theorem unionTypes_repeats : Repeats (· = ·) (unionTypes ctx) (unionTypes ctx') := by
  refine restated.pass_eq ?_
  intro sym again same
  have body := same.body
  generalize sym.decl.body = raw, again.decl.body = restatedBody at body ⊢
  cases body with
  | union alts =>
    refine .bind (unionType_repeats restated.agrees same.toRestatedHead alts) ?_
    intro _ hit
    rw [hit, same.id_eq]
    exact .pure rfl
  | enum | struct | table | service => exact .pure rfl

theorem structDrafts_repeats (enums : EnumTypes) :
    Repeats (List.Forall₂ RestatedDraft) (structDrafts ctx enums) (structDrafts ctx' enums) := by
  refine restated.pass ?_
  intro sym again same
  have body := same.body
  generalize sym.decl.body = raw, again.decl.body = restatedBody at body ⊢
  cases body with
  | struct fs =>
    refine .bind (structDraft_repeats restated.agrees enums same.toRestatedHead fs) ?_
    exact fun _ drafted => .pure (.some drafted)
  | enum | union | table | service => exact .pure .none

theorem tableTypes_repeats (sound : SoundEnums (enumTypes ctx).value) :
    Repeats (· = ·) (tableTypes ctx (enumTypes ctx).value)
      (tableTypes ctx' (enumTypes ctx).value) := by
  refine restated.pass_eq ?_
  intro sym again same
  have body := same.body
  generalize sym.decl.body = raw, again.decl.body = restatedBody at body ⊢
  cases body with
  | table fs =>
    refine .bind (tableType_repeats restated.agrees sound same.toRestatedHead fs) ?_
    intro _ hit
    rw [hit, same.id_eq]
    exact .pure rfl
  | enum | union | struct | service => exact .pure rfl

theorem serviceTypes_repeats : Repeats (· = ·) (serviceTypes ctx) (serviceTypes ctx') := by
  refine restated.pass_eq ?_
  intro sym again same
  have body := same.body
  generalize sym.decl.body = raw, again.decl.body = restatedBody at body ⊢
  cases body with
  | service methods =>
    refine .bind (serviceType_repeats restated.agrees same.toRestatedHead methods) ?_
    intro _ hit
    rw [hit, same.id_eq]
    exact .pure rfl
  | enum | union | struct | table => exact .pure rfl

end RestatedContext

/-- An accepted enumeration has been checked without an error. -/
theorem enumType_of_lookup (reg : ctx.symbols.Regular) (clean : (enumTypes ctx).Clean)
    {id : Nat} (hit : (enumTypes ctx).value.lookup id = some enum) :
    ∃ sym base vs,
      ctx.symbols.entries[id]? = some sym ∧ sym.decl.body = .enum base vs ∧
        (enumType ctx sym base vs).Clean ∧ (enumType ctx sym base vs).value = some enum := by
  rw [enumTypes_value] at hit
  rcases exists_of_lookup_byNumber reg hit with ⟨sym, stands, ok⟩
  simp only [enumTypes, Report.clean_bind, Report.clean_forEach] at clean
  unfold enumOf at ok
  grind [clean_bind]

/-- The numbers of accepted enumerations fit their underlying types. -/
theorem soundEnums_of_clean (reg : ctx.symbols.Regular) (clean : (enumTypes ctx).Clean) :
    SoundEnums (enumTypes ctx).value := by
  intro id enum hit
  rcases enumType_of_lookup reg clean hit with ⟨_, _, _, _, _, own, ok⟩
  exact holds_of_accepted own ok

/-! ## The whole check -/

/-- A check of symbols that are stated again repeats if the directives do. -/
theorem all_repeats (reg : ctx.symbols.Regular) (restated : RestatedContext ctx ctx')
    (directed :
      Repeats (· = ·) (directives ctx e schemas) (directives ctx' entryAgain schemasAgain)) :
    Repeats (· = ·) (all ctx e schemas) (all ctx' entryAgain schemasAgain) := by
  refine .bind restated.structCycles_repeats fun _ cyclic => ?_
  refine .bind restated.enumTypes_repeats fun clean enums => ?_
  refine .bind restated.unionTypes_repeats fun _ unions => ?_
  rw [← enums]
  refine .bind (restated.structDrafts_repeats _) fun _ drafts => ?_
  refine .bind (restated.tableTypes_repeats (soundEnums_of_clean reg clean)) fun _ tables => ?_
  refine .bind restated.serviceTypes_repeats fun _ services => ?_
  grind [Repeats.bind, structTypes_again, Repeats.pure]

theorem Checked.body?_again (same : RestatedSymbol ctx sym again) (checked : Checked) :
    checked.body? again = checked.body? sym := by
  rw [Checked.body?, Checked.body?, same.kind_eq, same.id_eq]

end Check

namespace Catalog

/-- An entry without its place. -/
def Entry.unplaced (e : Entry) : Entry :=
  { e with span := default }

/-- A catalog without the places of its entries. -/
def unplaced (c : Catalog) : Catalog :=
  { c with entries := c.entries.map Entry.unplaced }

/-- Modules do not depend on places. -/
theorem modulesOf_unplaced (es : List Entry) :
    Check.modulesOf (es.map Entry.unplaced) = Check.modulesOf es := by
  rw [Check.modulesOf, List.foldl_map]
  rfl

theorem entryOf_again {ctx : Check.Context} (same : Check.RestatedSymbol ctx sym again)
    (body : Body) : (Check.entryOf again body).unplaced = (Check.entryOf sym body).unplaced := by
  have attrs : again.decl.attributes.map Attribute.toCatalog = _ := same.attributes
  simp only [Entry.unplaced, Check.entryOf, same.id_eq, same.name_eq, same.scope_eq,
    same.fullName_eq, same.doc_eq, attrs]

/-- The entries of symbols that are stated again differ in their places only. -/
theorem entries_again {ctx : Check.Context}
    (restated : List.Forall₂ (Check.RestatedSymbol ctx) symbols symbolsAgain)
    {checked : Check.Checked}
    (made : (symbols.mapM fun sym => (checked.body? sym).map (Check.entryOf sym)) = some es) :
    ∃ entriesAgain,
      (symbolsAgain.mapM fun sym => (checked.body? sym).map (Check.entryOf sym)) =
          some entriesAgain ∧ entriesAgain.map Entry.unplaced = es.map Entry.unplaced := by
  rw [mapM_eq_some_iff] at made
  induction restated generalizing es with
  | nil =>
    cases made
    exact ⟨[], rfl, rfl⟩
  | @cons sym again _ _ same _ ih =>
    cases made with
    | cons hd rest =>
      rcases Option.map_eq_some_iff.mp hd with ⟨body, hit, rfl⟩
      rcases ih rest with ⟨others, othersMade, alike⟩
      refine ⟨Check.entryOf again body :: others, ?_, ?_⟩
      · grind [mapM_eq_some_iff, Check.Checked.body?_again, Option.map_some]
      · rw [List.map_cons, List.map_cons, entryOf_again same, alike]

/-- Schemas whose symbols, attributes and directives are those of accepted schemas are accepted
without a word, with the same catalog. -/
theorem ofSymbols_again {schemas : List Schema} (reg : symbols.Regular)
    (ok : (ofSymbols schemas symbols e old).value = .accepted c)
    (restated :
      Check.RestatedContext (checkContext schemas symbols) (checkContext schemasAgain symbolsAgain))
    (directed :
      Report.Repeats (· = ·)
        (Check.directives (checkContext schemas symbols) e (Schema.sortByPath schemas))
        (Check.directives (checkContext schemasAgain symbolsAgain) entryAgain
          (Schema.sortByPath schemasAgain))) :
    ∃ again,
      ofSymbols schemasAgain symbolsAgain entryAgain [] = ⟨.accepted again, []⟩ ∧
        again.unplaced = c.unplaced := by
  rcases eq_of_accepted ok with ⟨clean, made, catalog_eq⟩
  have contextRegular : (checkContext schemas symbols).symbols.Regular := reg
  rcases Check.all_repeats contextRegular restated directed clean with ⟨silent, checked_eq⟩
  rcases entries_again restated.symbols made with ⟨es, madeAgain, alike⟩
  have modules : Check.modulesOf es = Check.modulesOf c.entries := by
    rw [← modulesOf_unplaced, alike, modulesOf_unplaced]
  refine ⟨{ c with entries := es }, ?_, ?_⟩
  · rw [checked_eq] at madeAgain
    have directives_eq := congrArg Check.Checked.directives checked_eq
    have declared_eq := restated.declared_eq
    unfold checkContext at silent madeAgain directives_eq declared_eq
    dsimp only at madeAgain declared_eq
    simp only [ofSymbols, silent, List.append_nil, DiagnosticAt.hasErrors_nil, madeAgain]
    rw [← directives_eq, declared_eq, modules, catalog_eq]
    rfl
  · unfold unplaced
    rw [alike]

end Catalog

end FlatSchema
