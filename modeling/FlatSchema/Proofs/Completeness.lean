import FlatSchema.Proofs.CheckedCatalog

/-!
# The check loses nothing

A set of schemas is either rejected with an error that says why, or accepted
with everything that is written in it: each symbol has an entry of its kind,
each member of a declaration has a member of the same name at the same place,
and the modules share the entries out among themselves.
-/

namespace FlatSchema

open Catalog (Entry Module)

variable {ctx : Context} {modules : List Module}

/-- The names of the members of a written body, as a catalog spells them. -/
def DeclBody.memberNames : DeclBody → List String
  | .enum _ vs => vs.map EnumValue.name
  | .union alts => alts.map fun alt => Check.variantName alt.typeName
  | .struct fs => fs.map Field.name
  | .table fs => fs.map Field.name
  | .service methods => methods.map Method.name

namespace Catalog

/-- The names of the members of an accepted body. -/
def Body.memberNames : Body → List String
  | .enum ty => ty.values.map EnumValue.name
  | .union ty => ty.variants.map Variant.name
  | .struct ty => ty.fields.map StructField.name
  | .table ty => ty.fields.map TableField.name
  | .service ty => ty.methods.map Method.name

/-- An entry that is the declaration of a symbol, with all its members. -/
structure Declares (sym : Symbol) (e : Entry) : Prop where
  fullName_eq : e.fullName = sym.fullName
  kind_eq : e.body.kind = sym.decl.kind
  memberNames_eq : e.body.memberNames = sym.decl.body.memberNames

/-- A catalog in which nothing of a symbol table is missing. -/
structure Complete (symbols : SymbolTable) (c : Catalog) : Prop where
  declares : List.Forall₂ Declares symbols.entries c.entries
  ids_eq : c.entries.map Entry.id = List.range c.entries.length
  modules_perm : (c.modules.flatMap Module.ids).Perm (List.range c.entries.length)

end Catalog

namespace Check

theorem KeepsBody.memberNames_eq (keeps : KeepsBody ctx sym raw body) :
    body.memberNames = raw.memberNames := by
  cases keeps with
  | enum _ kept => exact map_eq_of_forall₂ kept fun _ _ v => v.1
  | union kept => exact map_eq_of_forall₂ kept fun _ _ alt => alt.name_eq
  | struct kept => exact map_eq_of_forall₂ kept.kept fun _ _ f => f.name_eq
  | table kept => exact map_eq_of_forall₂ kept.kept fun _ _ f => f.name_eq
  | service kept => exact map_eq_of_forall₂ kept fun _ _ method => method.name_eq

theorem KeepsEntry.declares (keeps : KeepsEntry ctx sym e) : Catalog.Declares sym e := by
  rcases keeps with ⟨body, rfl, kept⟩
  exact ⟨rfl, kept.kind_eq, kept.memberNames_eq⟩

theorem KeepsEntry.id_eq (keeps : KeepsEntry ctx sym e) : e.id = sym.id := by
  rcases keeps with ⟨body, rfl, _⟩
  rfl

/-! ## Modules -/

/-- Adding an entry to the module of its scope keeps the scopes distinct. -/
theorem nodup_scopes_addToModule (nodup : (modules.map Module.scope).Nodup) (e : Entry) :
    ((addToModule modules e).map Module.scope).Nodup := by
  unfold addToModule
  simp only
  split
  · rw [List.map_map]
    have same :
        (Module.scope ∘ fun cand : Module =>
          if cand.scope == ".".intercalate e.scope then
            { cand with ids := cand.ids ++ [e.id] }
          else cand) = Module.scope := by
      grind
    rw [same]
    exact nodup
  grind

/-- Among modules of distinct scopes an entry is added to one. -/
theorem flatMap_ids_insert (nodup : (modules.map Module.scope).Nodup)
    (known : ∃ cand ∈ modules, cand.scope = ns) (id : Nat) :
    ((modules.map fun cand =>
        if cand.scope == ns then { cand with ids := cand.ids ++ [id] }
        else cand).flatMap Module.ids).Perm
      (modules.flatMap Module.ids ++ [id]) := by
  induction modules with
  | nil =>
    rcases known with ⟨_, mem, _⟩
    cases mem
  | cons hd rest ih =>
    rw [List.map_cons, List.flatMap_cons, List.flatMap_cons]
    by_cases own : hd.scope = ns
    · -- No later module has this scope, so the rest stays as it is.
      have others :
          (rest.map fun cand =>
            if cand.scope == ns then
              { cand with ids := cand.ids ++ [id] }
            else cand) = rest := by
        refine (List.map_congr_left ?_).trans (List.map_id rest)
        grind
      rw [others, if_pos (beq_iff_eq.mpr own), List.append_assoc, List.append_assoc]
      exact List.Perm.append_left _ List.perm_append_comm
    grind

/-- The modules hold the numbers of the entries and the new one. -/
theorem flatMap_ids_addToModule (nodup : (modules.map Module.scope).Nodup) (e : Entry) :
    ((addToModule modules e).flatMap Module.ids).Perm (modules.flatMap Module.ids ++ [e.id]) := by
  unfold addToModule
  simp only
  split
  · next known =>
      rw [List.any_eq_true] at known
      rcases known with ⟨cand, mem, equal⟩
      exact flatMap_ids_insert nodup ⟨cand, mem, eq_of_beq equal⟩ e.id
  grind

/-- The modules of a list of entries share its numbers out among themselves. -/
theorem flatMap_ids_modulesOf (es : List Entry) :
    ((modulesOf es).flatMap Module.ids).Perm (es.map Entry.id) := by
  suffices general :
      ∀ (es : List Entry) (modules : List Module), (modules.map Module.scope).Nodup →
        ((es.foldl addToModule modules).flatMap Module.ids).Perm
          (modules.flatMap Module.ids ++ es.map Entry.id) from
    general es [] List.nodup_nil
  intro es
  induction es with
  | nil =>
    grind
  | cons hd rest ih =>
    intro modules nodup
    have step := flatMap_ids_addToModule nodup hd
    refine (ih _ (nodup_scopes_addToModule nodup hd)).trans ?_
    grind

end Check

namespace Catalog

theorem Keeps.complete {ctx : Check.Context} (keeps : Keeps ctx c) : Complete ctx.symbols c := by
  have ids : c.entries.map Entry.id = List.range c.entries.length := by
    rw [map_eq_of_forall₂ keeps.entries fun _ _ kept => kept.id_eq, keeps.regular.ids_eq,
      keeps.entries.length_eq]
  refine ⟨keeps.entries.imp fun _ _ kept => kept.declares, ids, ?_⟩
  rw [keeps.modules_eq, ← ids]
  exact Check.flatMap_ids_modulesOf c.entries

/-- Nothing is lost silently: whatever was found earlier, a set of schemas is rejected exactly if
an error is reported, and else accepted with a complete catalog. -/
theorem ofSymbols_loses_nothing (schemas : List Schema) (entry : Option Text)
    (earlier : List Diagnostic) :
    let symbols := (SymbolTable.ofSchemas schemas).value
    let report := ofSymbols schemas symbols entry earlier
    report.value ≠ .incomplete ∧
      (report.value = .rejected ↔
        DiagnosticAt.hasErrors (earlier ++ report.diagnostics) = true) ∧
      ∀ catalog, report.value = .accepted catalog → Complete symbols catalog := by
  intro symbols report
  have regular : symbols.Regular := SymbolTable.regular_ofSchemas schemas
  rcases ofSymbols_value schemas regular entry earlier with
    ⟨errors, value⟩ | ⟨catalog, errors, value, keeps⟩
  · refine ⟨?_, ⟨fun _ => errors, fun _ => value⟩, ?_⟩
    · intro incomplete
      cases value.symm.trans incomplete
    · intro catalog accepted
      cases value.symm.trans accepted
  · refine ⟨?_, ⟨?_, ?_⟩, ?_⟩
    · intro incomplete
      cases value.symm.trans incomplete
    · intro rejected
      cases value.symm.trans rejected
    · intro found
      cases errors.symm.trans found
    · intro other accepted
      cases value.symm.trans accepted
      exact keeps.complete

/-- Two colours, a point, a shape that has both, and a union of the shape in another scope. -/
def paletteSchema : Schema where
  path := Text.ofString "palette.fbs"
  span := default
  items :=
    [ .declaration ⟨"Color", [], [], [], .enum (.scalar .uint8 default)
        [⟨"Red", none, [], default⟩, ⟨"Green", some 3, [], default⟩], default⟩,
      .declaration ⟨"Point", [], [], [], .struct
        [⟨"x", .scalar .float32 default, none, [], [], default⟩], default⟩,
      .declaration ⟨"Shape", [], [], [], .table
        [⟨"at", .named "Point" default, none, [], [], default⟩,
          ⟨"color", .named "Color" default, none, [], [], default⟩], default⟩,
      .enterScope ["Scene"] default,
      .declaration ⟨"Any", ["Scene"], [], [], .union [⟨"Shape", [], default⟩], default⟩ ]

/-- The palette is accepted, so its catalog is complete. -/
theorem palette_loses_nothing :
    let symbols := (SymbolTable.ofSchemas [paletteSchema]).value
    ∃ catalog,
      (ofSymbols [paletteSchema] symbols none []).value = .accepted catalog ∧
        catalog.entries.length = 4 ∧ Complete symbols catalog := by
  intro symbols
  rcases ofSymbols_loses_nothing [paletteSchema] none [] with ⟨finished, _, complete⟩
  cases value : (ofSymbols [paletteSchema] symbols none []).value with
  | accepted catalog =>
    have whole := complete catalog value
    refine ⟨catalog, rfl, ?_, whole⟩
    rw [← whole.declares.length_eq]
    decide +kernel
  | rejected =>
    have accepted : (ofSymbols [paletteSchema] symbols none []).value ≠ .rejected := by
      decide +kernel
    exact absurd value accepted
  | incomplete => exact absurd value finished

end Catalog

end FlatSchema
