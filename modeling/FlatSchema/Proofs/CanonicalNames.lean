import FlatSchema.Proofs.CanonicalText

/-!
# What the names of a canonical schema mean

Every reference of a catalog is written as a name where some scope is in
effect: alone if its target stands in that scope, else qualified.  Read again,
the name is looked up in the scopes around it first.  So it keeps its meaning
exactly if its target stands in the scope in effect or no scope around it
holds a declaration that is qualified alike.  The name of a variant follows
the spelling of its table, and a field type must not be spelled like a
built-in one.
-/

namespace FlatSchema

open SymbolTable

variable {catalog : Catalog}

/-! ## Mentions -/

/-- A name in a schema, with the scope that is in effect where it stands. -/
structure Mention where
  scope : List String
  /-- Whether it stands where built-in types may stand too. -/
  isType : Bool
  name : String
deriving DecidableEq, Repr

/-- The names in a type. -/
def TypeExpr.mentions (ns : List String) : TypeExpr → List Mention
  | .scalar _ _ => []
  | .string _ => []
  | .vector elem _ => elem.mentions ns
  | .named name _ => [⟨ns, true, name⟩]

/-- The names of types in a body, in the order of its members. -/
def DeclBody.mentions (ns : List String) : DeclBody → List Mention
  | .enum base _ => base.mentions ns
  | .union alts => alts.map fun alt => ⟨ns, false, alt.typeName⟩
  | .struct fs => fs.flatMap fun f => f.type.mentions ns
  | .table fs => fs.flatMap fun f => f.type.mentions ns
  | .service methods =>
    methods.flatMap fun method =>
      [⟨ns, false, method.requestType⟩, ⟨ns, false, method.responseType⟩]

def Item.mentions (ns : List String) : Item → List Mention
  | .declaration decl => decl.body.mentions ns
  | .rootType name _ _ => [⟨ns, false, name⟩]
  | _ => []

/-- The names of types in items, in order, after the given scope was in effect. -/
def mentionsFrom (ns : List String) : List Item → List Mention
  | [] => []
  | item :: rest => item.mentions ns ++ mentionsFrom (item.scopeAfter ns) rest

theorem mentionsFrom_append (ns : List String) (fst snd : List Item) :
    mentionsFrom ns (fst ++ snd) =
      mentionsFrom ns fst ++ mentionsFrom (fst.foldl Item.scopeAfter ns) snd := by
  induction fst generalizing ns with
  | nil => rfl
  | cons item rest ih =>
    rw [List.cons_append, mentionsFrom, mentionsFrom, ih, List.append_assoc, List.foldl_cons]

/-- Items that leave the scope alone are gone through one by one. -/
theorem mentionsFrom_map {toItem : α → Item}
    (still : ∀ elem, (toItem elem).scopeAfter ns = ns) (elems : List α) :
    mentionsFrom ns (elems.map toItem) = elems.flatMap fun elem => (toItem elem).mentions ns := by
  induction elems with
  | nil => rfl
  | cons hd rest ih => rw [List.map_cons, mentionsFrom, still, ih, List.flatMap_cons]

/-- A name that is read back as the declaration it was written for, and as the variant. -/
structure Mention.Means (symbols : SymbolTable) (fullName : String) (alt : Option String)
    (mention : Mention) : Prop where
  named :
    mention.isType = true → Parser.namedType mention.name default = .named mention.name default
  resolved :
    ∃ id, symbols.resolve mention.name mention.scope = .resolved id ∧ symbols.fullName id = fullName
  variant_eq : ∀ kept ∈ alt, Check.variantName mention.name = kept

/-! ## References -/

/-- A reference of a catalog, with the scope of the entry that makes it. -/
structure Reference where
  scope : List String
  isType : Bool
  id : Nat
  /-- The name of the variant that it is. -/
  variant : Option String
deriving DecidableEq, Repr

/-- The references in a type. -/
def FieldType.references (ns : List String) : FieldType → List Reference
  | .scalar _ => []
  | .string => []
  | .vector elem => elem.references ns
  | .named id => [⟨ns, true, id, none⟩]

namespace Catalog

/-- The references in a body, in the order of its members. -/
def Body.references (ns : List String) : Body → List Reference
  | .enum _ => []
  | .union ty => ty.variants.map fun alt => ⟨ns, false, alt.table, some alt.name⟩
  | .struct ty => ty.fields.flatMap fun f => f.type.references ns
  | .table ty => ty.fields.flatMap fun f => f.type.references ns
  | .service ty =>
    ty.methods.flatMap fun method =>
      [⟨ns, false, method.request, none⟩, ⟨ns, false, method.response, none⟩]

/-- The references of a catalog in the order of its modules; the root type stands in the scope of
the last one. -/
def references (catalog : Catalog) : List Reference :=
  (catalog.listedEntries.flatMap fun e => e.body.references e.scope) ++
    catalog.rootType.toList.map fun id =>
      ⟨Canonical.lastScope [] catalog.modules, false, id, none⟩

end Catalog

namespace Reference

/-- A reference as it is written. -/
def mention (catalog : Catalog) (reference : Reference) : Mention :=
  ⟨reference.scope, reference.isType, Canonical.spelling catalog reference.scope reference.id⟩

/-- A reference that nothing around it hides and nothing in its spelling changes. -/
structure Plain (catalog : Catalog) (target : Catalog.Entry) (reference : Reference) : Prop where
  notBuiltin :
    reference.isType = true →
      (reference.mention catalog).name ≠ "string" ∧
        ScalarKind.ofSpelling? (reference.mention catalog).name = none
  notHidden :
    target.scope = reference.scope ∨
      ∀ outer ∈ enclosing reference.scope,
        catalog.find? (qualify outer target.fullName) = none
  variant_eq :
    ∀ kept ∈ reference.variant,
      kept =
        if target.scope = reference.scope then target.name
        else Check.variantName target.fullName

instance (catalog : Catalog) (target : Catalog.Entry) (reference : Reference) :
    Decidable (reference.Plain catalog target) :=
  decidable_of_iff
    ((reference.isType = true →
        (reference.mention catalog).name ≠ "string" ∧
          ScalarKind.ofSpelling? (reference.mention catalog).name = none) ∧
      (target.scope = reference.scope ∨
        ∀ outer ∈ enclosing reference.scope,
          catalog.find? (qualify outer target.fullName) = none) ∧
        ∀ kept ∈ reference.variant,
          kept =
            if target.scope = reference.scope then target.name
            else Check.variantName target.fullName)
    ⟨fun ⟨notBuiltin, notHidden, variant_eq⟩ => ⟨notBuiltin, notHidden, variant_eq⟩,
      fun plain => ⟨plain.notBuiltin, plain.notHidden, plain.variant_eq⟩⟩

end Reference

/-! ## Written references -/

namespace Canonical

variable {catalog : Catalog}

theorem mentions_spelledType (ns : List String) (span : Span) (ty : FieldType) :
    (spelledType catalog ns span ty).mentions ns =
      (ty.references ns).map (Reference.mention catalog) := by
  induction ty with
  | scalar | string | named => rfl
  | vector elem ih => exact ih

theorem mentions_spelledBody (ns : List String) (span : Span) (body : Catalog.Body) :
    (spelledBody catalog ns span body).mentions ns =
      (body.references ns).map (Reference.mention catalog) := by
  cases body with
  | enum ty => rfl
  | union ty =>
    simp only [spelledBody, DeclBody.mentions, Catalog.Body.references, List.map_map]
    rfl
  | struct ty | table ty =>
    simp only [spelledBody, DeclBody.mentions, Catalog.Body.references, List.flatMap_map,
      List.map_flatMap]
    exact congrArg (ty.fields.flatMap ·) (funext fun f => mentions_spelledType ns span f.type)
  | service ty =>
    simp only [spelledBody, DeclBody.mentions, Catalog.Body.references, List.flatMap_map,
      List.map_flatMap]
    rfl

theorem mentionsFrom_spelledModules (place : Span)
    (reg : ∀ group ∈ modules, group.Regular catalog) :
    mentionsFrom ns (spelledModules catalog place ns modules) =
      (((modules.flatMap Catalog.Module.ids).filterMap catalog.entry?).flatMap fun e =>
        e.body.references e.scope).map (Reference.mention catalog) := by
  induction modules generalizing ns with
  | nil => rfl
  | cons group rest ih =>
    have entered : mentionsFrom ns (entering place ns (scopeParts group.scope)) = [] := by
      unfold entering
      split <;> rfl
    have declared :
        (group.ids.filterMap catalog.entry?).flatMap (fun e =>
            (Item.declaration (spelledDecl catalog e)).mentions (scopeParts group.scope)) =
          (group.ids.filterMap catalog.entry?).flatMap fun e =>
            (e.body.references e.scope).map (Reference.mention catalog) := by
      refine List.flatMap_congr ?_
      intro e mem
      rcases scope_of_mem_module (reg group List.mem_cons_self) mem with ⟨_, own⟩
      rw [← own]
      exact mentions_spelledBody e.scope e.span e.body
    rw [spelledModules, mentionsFrom_append, mentionsFrom_append, List.foldl_append,
      foldl_entering, foldl_scopeAfter_map fun _ => rfl, mentionsFrom_map fun _ => rfl, entered,
      declared, ih fun later mem => reg later (List.mem_cons_of_mem _ mem)]
    simp [List.map_flatMap]

/-- The names in the canonical schema are the references of the catalog, as they are written. -/
theorem mentionsFrom_spelledItems (spellable : catalog.Spellable) (place : Span) :
    mentionsFrom [] (spelledItems catalog place) =
      catalog.references.map (Reference.mention catalog) := by
  have attrs :
      mentionsFrom []
        (catalog.declaredAttributes.map fun name => Item.declareAttribute name place) = [] := by
    rw [mentionsFrom_map fun _ => rfl]
    exact List.flatMap_eq_nil_iff.mpr fun _ _ => rfl
  have directives :
      mentionsFrom (lastScope [] catalog.modules) (spelledDirectives catalog place) =
        (catalog.rootType.toList.map fun id =>
          (⟨lastScope [] catalog.modules, false, id, none⟩ : Reference)).map
            (Reference.mention catalog) := by
    unfold spelledDirectives
    cases catalog.rootType <;> cases catalog.fileIdentifier <;> cases catalog.fileExtension <;> rfl
  rw [spelledItems, mentionsFrom_append, mentionsFrom_append, List.foldl_append,
    foldl_scopeAfter_map fun _ => rfl, foldl_spelledModules, attrs, directives,
    mentionsFrom_spelledModules place spellable.modules, List.nil_append, Catalog.references,
    List.map_append, Catalog.listedEntries]

end Canonical

/-! ## The symbols of the canonical schema -/

namespace Catalog

theorem find?_eq_none_iff :
    catalog.find? name = none ↔ name ∉ catalog.entries.map Entry.fullName := by
  rw [find?]
  simp

/-- A schema with the items of the canonical one declares the entries, each once, under their
names. -/
theorem Spellable.symbols (spellable : catalog.Spellable) (sch : Schema) (place : Span)
    (same :
      sch.items.map Item.unplaced = (Canonical.spelledItems catalog place).map Item.unplaced) :
    let report := ofSchemas [sch]
    report.diagnostics = [] ∧
      (report.value.entries.map fun sym => sym.decl.unplaced) =
        (catalog.listedEntries.map fun e => (Canonical.spelledDecl catalog e).unplaced) ∧
      report.value.entries.map Symbol.fullName = catalog.listedEntries.map Entry.fullName := by
  have decls :
      sch.decls.map Decl.unplaced =
        catalog.listedEntries.map fun e => (Canonical.spelledDecl catalog e).unplaced := by
    have declared := congrArg (List.filterMap Item.decl?) same
    rw [Item.filterMap_decl?_unplaced, Item.filterMap_decl?_unplaced,
      Canonical.filterMap_decl?_spelledItems, List.map_map] at declared
    exact declared
  have merged : mergedDecls [sch] = sch.decls := by
    rw [mergedDecls, Schema.sortByPath_singleton, List.flatMap_singleton]
  have names :
      (sch.decls.map fun decl => qualify decl.scope decl.name) =
        catalog.listedEntries.map Entry.fullName := by
    have named := congrArg (List.map fun decl : Decl => qualify decl.scope decl.name) decls
    rw [List.map_map, List.map_map] at named
    refine named.trans (List.map_congr_left ?_)
    intro e mem
    exact (spellable.fullName_eq e (spellable.listedEntries_perm.mem_iff.mp mem)).symm
  have distinct : (catalog.listedEntries.map Entry.fullName).Nodup :=
    (spellable.listedEntries_perm.map Entry.fullName).nodup_iff.mpr spellable.nodup_fullNames
  rw [← names, ← merged] at distinct
  rcases ofSchemas_of_nodup distinct with ⟨silent, kept⟩
  rw [merged] at kept
  refine ⟨silent, ?_, ?_⟩
  · rw [← decls, ← kept, List.map_map]
    rfl
  · have reg := regular_ofSchemas [sch]
    rw [← names, ← kept, List.map_map]
    exact List.map_congr_left fun sym mem => reg.fullName_eq sym mem

end Catalog

/-! ## When a name keeps its meaning -/

theorem Parser.namedType_eq_named_iff (name : String) :
    namedType name default = .named name default ↔
      name ≠ "string" ∧ ScalarKind.ofSpelling? name = none := by
  unfold namedType
  split
  · next isString => simp [isString]
  · grind

theorem IsName.variantName_eq (isName : IsName name) : Check.variantName name = name := by
  have kept : name.toList.map (fun char => if char = '.' then '_' else char) = name.toList := by
    refine (List.map_congr_left ?_).trans (List.map_id _)
    intro char mem
    rw [if_neg, id_eq]
    rintro rfl
    exact isName.no_dot mem
  rw [Check.variantName, kept, String.ofList_toList]

namespace Reference

variable {catalog : Catalog} (spellable : catalog.Spellable)
variable {reference : Reference} {target : Catalog.Entry}
variable (stands : catalog.entry? reference.id = some target)
include spellable stands

/-- A spelling leads back to its target exactly where no scope around it hides the target. -/
theorem resolved_iff (path : Text) (place : Span) : let symbols :=
      (ofSchemas [⟨path, Canonical.spelledItems catalog place, place⟩]).value
    (∃ id,
        symbols.resolve (reference.mention catalog).name reference.scope = .resolved id ∧
          symbols.fullName id = target.fullName) ↔
      (target.scope = reference.scope ∨
        ∀ outer ∈ enclosing reference.scope,
          catalog.find? (qualify outer target.fullName) = none) := by
  intro symbols
  have mem := List.mem_of_getElem? stands
  have reg : symbols.Regular := regular_ofSchemas _
  rcases spellable.symbols ⟨path, Canonical.spelledItems catalog place, place⟩ place rfl with
    ⟨_, _, fullNames⟩
  have sameNames : ∀ name, symbols.find? name = none ↔ catalog.find? name = none := by
    grind [find?_eq_none_iff, Catalog.find?_eq_none_iff,
      Catalog.Spellable.listedEntries_perm]
  have known : ∃ id, symbols.find? target.fullName = some id := by
    rw [← Option.ne_none_iff_exists', ne_eq, sameNames, Catalog.find?_eq_none_iff, not_not]
    exact List.mem_map_of_mem mem
  rcases known with ⟨id, known⟩
  rw [mention, Canonical.spelling_eq stands]
  by_cases same : target.scope = reference.scope
  · -- The name alone is found in the innermost scope.
    rw [if_pos same]
    refine iff_of_true ⟨id, ?_, reg.fullName_of_find? known⟩ (.inl same)
    refine resolve_own (spellable.name target mem).no_dot ?_
    rw [← same, ← spellable.fullName_eq target mem]
    exact known
  · rw [if_neg same, reg.resolve_literal_iff known]
    simp [same, sameNames]

/-- A name is read back as it was meant exactly if its reference is plain. -/
theorem means_iff_plain (path : Text) (place : Span) :
    (reference.mention catalog).Means
        (ofSchemas [⟨path, Canonical.spelledItems catalog place, place⟩]).value
        target.fullName reference.variant ↔ reference.Plain catalog target := by
  have mem := List.mem_of_getElem? stands
  have resolves := resolved_iff spellable stands path place
  have spelled :
      Check.variantName (reference.mention catalog).name =
        if target.scope = reference.scope then target.name
        else Check.variantName target.fullName := by
    rw [mention, Canonical.spelling_eq stands]
    split
    · exact (spellable.name target mem).variantName_eq
    · rfl
  constructor
  · rintro ⟨named, resolved, alt⟩
    refine ⟨?_, resolves.mp resolved, ?_⟩
    · intro isType
      exact (Parser.namedType_eq_named_iff _).mp (named isType)
    grind
  · rintro ⟨notBuiltin, notHidden, alt⟩
    refine ⟨?_, resolves.mpr notHidden, ?_⟩
    · intro isType
      exact (Parser.namedType_eq_named_iff _).mpr (notBuiltin isType)
    grind

end Reference

namespace Catalog

theorem Closed.target (closed : Closed catalog) (mem : reference ∈ catalog.references) :
    ∃ target, catalog.entry? reference.id = some target := by
  have ofKind :
      ∀ id, catalog.kind? id = some .table → ∃ target, catalog.entry? id = some target := by
    intro id isTable
    rcases entry?_of_kind? isTable with ⟨target, stands, _⟩
    exact ⟨target, stands⟩
  have ofType :
      ∀ (ns : List String) (ty : FieldType), catalog.Known ty →
        reference ∈ ty.references ns → ∃ target, catalog.entry? reference.id = some target := by
    intro ns ty isKnown fits
    induction ty with
    | scalar | string => cases fits
    | vector elem ih => exact ih isKnown fits
    | named id =>
      rw [FieldType.references, List.mem_singleton] at fits
      rw [fits]
      exact isKnown
  rw [references, List.mem_append] at mem
  rcases mem with inBody | isRoot
  · rcases List.mem_flatMap.mp inBody with ⟨e, listed, fits⟩
    rcases List.mem_filterMap.mp listed with ⟨id, _, stands⟩
    have body := closed.bodies e (List.mem_of_getElem? stands)
    generalize e.body = own at body fits
    cases body with
    | enum ty => cases fits
    | union isTable =>
      rcases List.mem_map.mp fits with ⟨alt, among, rfl⟩
      exact ofKind _ (isTable alt among)
    | struct isInline =>
      rcases List.mem_flatMap.mp fits with ⟨f, among, mentioned⟩
      exact ofType _ _ (isInline f among).known mentioned
    | table isMember _ =>
      rcases List.mem_flatMap.mp fits with ⟨f, among, mentioned⟩
      exact ofType _ _ (isMember f among).known mentioned
    | service isTable =>
      rcases List.mem_flatMap.mp fits with ⟨method, among, mentioned⟩
      grind
  · rcases List.mem_map.mp isRoot with ⟨id, root, rfl⟩
    exact ofKind id (closed.rootIsTable id (Option.mem_toList.mp root))

theorem Spellable.mem_references (spellable : Spellable catalog)
    (mem : e ∈ catalog.entries) (held : ty ∈ e.body.memberTypes)
    (fits : reference ∈ ty.references e.scope) : reference ∈ catalog.references := by
  have inBody : reference ∈ e.body.references e.scope := by
    cases body : e.body with
    | struct own | table own =>
      grind [FieldType.references, Body.memberTypes, Body.references]
    | enum own | union own | service own =>
      rw [body] at held
      cases held
  grind [references, listedEntries_perm, List.mem_append]

/-- A type can be written down if none of its names is that of a built-in type. -/
theorem Spellable.printable_spelledType (spellable : Spellable catalog) (ns : List String)
    (span : Span)
    (known : ∀ reference ∈ ty.references ns, ∃ target, catalog.entry? reference.id = some target)
    (notBuiltin :
      ∀ reference ∈ ty.references ns,
        (reference.mention catalog).name ≠ "string" ∧
          ScalarKind.ofSpelling? (reference.mention catalog).name = none) :
    (Canonical.spelledType catalog ns span ty).Printable := by
  induction ty with
  | scalar | string => trivial
  | vector elem ih => exact ih known notBuiltin
  | named id =>
    have own : (⟨ns, true, id, none⟩ : Reference) ∈ (FieldType.named id).references ns :=
      List.mem_singleton_self _
    rcases known _ own with ⟨target, stands⟩
    exact ⟨Canonical.isPath_spelling spellable stands,
      (Parser.namedType_eq_named_iff _).mpr (notBuiltin _ own)⟩

theorem isType_of_mem_references {ty : FieldType} (fits : reference ∈ ty.references ns) :
    reference.isType = true := by
  induction ty with
  | scalar | string => cases fits
  | vector elem ih => exact ih fits
  | named id => rw [List.mem_singleton.mp fits]

/--
The names in the canonical schema of parsed schemas are the references of the catalog, each
written alone in the scope of its target and qualified elsewhere.  Read again and looked up in the
scope in effect, a name means its target, and a variant has its name, exactly if the reference is
plain.  Where no field type is spelled like a built-in one the items are read back from their text,
as long as no documentation has a carriage return in it.
-/
theorem canonical_names_mean_iff {schemas : List Schema} {entry : Option Text}
    {earlier : List Diagnostic} {catalog : Catalog}
    (parsed : ∀ schema ∈ schemas, ∃ source : Source, source.parse.schema = some schema)
    (accepted :
      (ofSymbols schemas (ofSchemas schemas).value entry earlier).value =
        .accepted catalog) (place : Span) :
    ∃ items,
      Canonical.items catalog place = .ok items ∧
        mentionsFrom [] items = catalog.references.map (Reference.mention catalog) ∧
        (∀ reference ∈ catalog.references,
          ∃ target, catalog.entry? reference.id = some target ∧
            ∀ path,
              (reference.mention catalog).Means (ofSchemas [⟨path, items, place⟩]).value
                  target.fullName reference.variant ↔ reference.Plain catalog target) ∧
        ((∀ reference ∈ catalog.references, reference.isType = true →
            (reference.mention catalog).name ≠ "string" ∧
              ScalarKind.ofSpelling? (reference.mention catalog).name = none) →
          (∀ own ∈ catalog.entries, ∀ line ∈ own.docLines, '\r' ∉ line.toList) →
          ∀ style : PrintStyle, style.Plain → ∀ path : Text,
            ∃ again,
              Source.parse ⟨path, printItems style items⟩ = ⟨some again, []⟩ ∧
                again.items.map Item.unplaced = items.map Item.unplaced) := by
  have keeps := keeps_of_accepted accepted
  have closed := closed_of_accepted accepted
  have legible : ∀ symbol ∈ (ofSchemas schemas).value.entries, symbol.decl.Legible :=
    fun _ member => legible_of_parsed parsed member
  have spellable := keeps.spellable legible
  refine ⟨_, Canonical.items_eq spellable closed place,
    Canonical.mentionsFrom_spelledItems spellable place, ?_, ?_⟩
  · intro reference member
    rcases closed.target member with ⟨target, stands⟩
    exact ⟨target, stands, fun path => Reference.means_iff_plain spellable stands path place⟩
  · intro notBuiltin noReturn style plain path
    have types :
        ∀ own ∈ catalog.entries, ∀ type ∈ own.body.memberTypes,
          (Canonical.spelledType catalog own.scope own.span type).Printable := by
      intro own member type held
      refine spellable.printable_spelledType _ _ ?_ ?_
      · intro reference inside
        exact closed.target (spellable.mem_references member held inside)
      · intro reference inside
        exact notBuiltin reference (spellable.mem_references member held inside)
          (isType_of_mem_references inside)
    rcases keeps.parse_spelledItems closed legible types noReturn plain place path with
      ⟨again, quiet, _, same⟩
    exact ⟨again, quiet, same⟩

end Catalog

/-- The schema of a source and its catalog, if it is accepted by itself. -/
def Source.accepted? (src : Source) : Option (Schema × Catalog) :=
  src.parse.schema.bind fun sch =>
    match (Catalog.ofSymbols [sch] (ofSchemas [sch]).value none []).value with
    | .accepted catalog => some (sch, catalog)
    | _ => none

theorem Source.of_accepted? {src : Source} (hit : src.accepted? = some (sch, catalog)) :
    src.parse.schema = some sch ∧
      (Catalog.ofSymbols [sch] (ofSchemas [sch]).value none []).value =
        .accepted catalog := by
  rcases Option.bind_eq_some_iff.mp hit with ⟨own, parsed, checked⟩
  split at checked
  · grind
  · cases checked

/-- A table and, in another scope, a union of it and a table that holds both. -/
def shelfSource : Source :=
  ⟨"shelf.fbs", "namespace a;table X\x7bv:int;\x7dnamespace b;union U\x7ba.X\x7d" ++
    "table T\x7bf:a.X;g:[T];u:U;\x7droot_type T;"⟩

/-- All names in the canonical schema of the shelf mean what they should. -/
theorem canonical_names_mean_shelf :
    ∃ schema catalog items,
      shelfSource.parse.schema = some schema ∧
        (Catalog.ofSymbols [schema] (ofSchemas [schema]).value none []).value =
          .accepted catalog ∧ Canonical.items catalog default = .ok items ∧
        mentionsFrom [] items =
          [⟨["b"], false, "a.X"⟩, ⟨["b"], true, "a.X"⟩, ⟨["b"], true, "T"⟩, ⟨["b"], true, "U"⟩,
            ⟨["b"], false, "T"⟩] ∧
        ∀ reference ∈ catalog.references,
          ∃ target, catalog.entry? reference.id = some target ∧
            (reference.mention catalog).Means
              (ofSchemas [⟨"shelf.fbs", items, default⟩]).value target.fullName
              reference.variant := by
  have evaluated :
      (shelfSource.accepted?.map fun (_, catalog) =>
        (catalog.references.map (Reference.mention catalog),
          catalog.references.all fun reference =>
            (catalog.entry? reference.id).any fun target =>
              decide (reference.Plain catalog target))) =
        some
          ([⟨["b"], false, "a.X"⟩, ⟨["b"], true, "a.X"⟩, ⟨["b"], true, "T"⟩, ⟨["b"], true, "U"⟩,
            ⟨["b"], false, "T"⟩], true) := by
    decide +kernel
  rcases Option.map_eq_some_iff.mp evaluated with ⟨⟨schema, catalog⟩, found, values⟩
  rw [Prod.mk.injEq] at values
  rcases Source.of_accepted? found with ⟨parsed, accepted⟩
  have read : ∀ own ∈ [schema], ∃ source : Source, source.parse.schema = some own := by
    intro own member
    rw [List.mem_singleton.mp member]
    exact ⟨shelfSource, parsed⟩
  rcases Catalog.canonical_names_mean_iff read accepted default with
    ⟨items, written, mentions, means, _⟩
  refine ⟨schema, catalog, items, parsed, accepted, written, mentions.trans values.1, ?_⟩
  intro reference member
  rcases means reference member with ⟨target, stands, exact_when⟩
  have plain := List.all_eq_true.mp values.2 reference member
  rw [stands, Option.any_some, decide_eq_true_iff] at plain
  exact ⟨target, stands, (exact_when "shelf.fbs").mpr plain⟩

/-- Two tables of one name in nested scopes, and in a third scope a field of the outer one. -/
def hiddenSource : Source :=
  ⟨"hidden.fbs", "namespace a;table X\x7bv:int;\x7dnamespace a.a;table X\x7bv:int;\x7d" ++
    "namespace a.b;table T\x7bf:X;\x7d"⟩

/-- The field is a reference to the outer table, but the name that is written for it is
ambiguous. -/
theorem canonical_name_hidden :
    ∃ schema catalog items target,
      hiddenSource.parse.schema = some schema ∧
        (Catalog.ofSymbols [schema] (ofSchemas [schema]).value none []).value =
          .accepted catalog ∧ Canonical.items catalog default = .ok items ∧
        (⟨["a", "b"], true, 0, none⟩ : Reference) ∈ catalog.references ∧
        catalog.entry? 0 = some target ∧ target.fullName = "a.X" ∧
        mentionsFrom [] items = [⟨["a", "b"], true, "a.X"⟩] ∧
        (ofSchemas [⟨"hidden.fbs", items, default⟩]).value.resolve "a.X" ["a", "b"] =
          .ambiguous "a.a.X" "a.X" := by
  have evaluated :
      (hiddenSource.accepted?.map fun (_, catalog) =>
        (catalog.references, (catalog.entry? 0).map Catalog.Entry.fullName,
          (Canonical.items catalog default).toOption.map fun items =>
            (mentionsFrom [] items,
              (ofSchemas [⟨"hidden.fbs", items, default⟩]).value.resolve "a.X"
                ["a", "b"]))) =
        some
          ([⟨["a", "b"], true, 0, none⟩], some "a.X",
            some ([⟨["a", "b"], true, "a.X"⟩], .ambiguous "a.a.X" "a.X")) := by
    decide +kernel
  rcases Option.map_eq_some_iff.mp evaluated with ⟨⟨schema, catalog⟩, found, values⟩
  simp only [Prod.mk.injEq, Option.map_eq_some_iff] at values
  rcases values with ⟨referenced, ⟨target, stands, fullName⟩, items, written, mentions, resolution⟩
  rcases Source.of_accepted? found with ⟨parsed, accepted⟩
  have made : Canonical.items catalog default = .ok items := by
    cases outcome : Canonical.items catalog default with
    | ok own =>
      rw [outcome] at written
      cases written
      rfl
    | error failure =>
      rw [outcome] at written
      cases written
  refine ⟨schema, catalog, items, target, parsed, accepted, made, ?_, stands, fullName, mentions,
    resolution⟩
  rw [referenced]
  exact List.mem_singleton_self _

end FlatSchema
