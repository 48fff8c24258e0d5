import FlatSchema.Proofs.CanonicalDecls
import FlatSchema.Proofs.CanonicalNames

/-!
# Canonical schemas come to their catalog

The canonical schema of an accepted catalog is written from the catalog alone.
Read and checked again it gives the catalog back, if all entries stand in the
outermost scope and no documentation has a carriage return in it: its
declarations restate those that the catalog was made from, it declares the
attributes of the catalog, and its directives are those in force.
-/

namespace FlatSchema

open Canonical (lastScope spelledItems spelling)
open Check (directive directives)
open Report (through)
open SymbolTable (ofSchemas)

variable {catalog : Catalog} {schema : Schema} {ctx : Context}

open Report

/-! ## Declared attributes -/

/-- Names without repetitions stay as they are. -/
theorem eraseDups_eraseDups [BEq α] [LawfulBEq α] (names : List α) :
    names.eraseDups.eraseDups = names.eraseDups := by
  cases names with
  | nil => rfl
  | cons hd rest =>
    have others : (rest.filter fun name => !name == hd).length ≤ rest.length :=
      List.length_filter_le _ _
    have fresh :
        ((rest.filter fun name => !name == hd).eraseDups.filter fun name => !name == hd) =
          (rest.filter fun name => !name == hd).eraseDups := by
      simp_all
    rw [List.eraseDups_cons, List.eraseDups_cons, fresh, eraseDups_eraseDups]
termination_by names.length

/-- The attribute that an item declares, if it does. -/
def Item.declares? : Item → Option Text
  | .declareAttribute name _ => some name
  | _ => none

namespace Check

theorem declaredAttributes_eq (schemas : List Schema) :
    declaredAttributes schemas =
      (schemas.flatMap fun schema => schema.items.filterMap Item.declares?).eraseDups :=
  rfl

theorem declaredAttributes_again
    (distinct : catalog.declaredAttributes.eraseDups = catalog.declaredAttributes)
    (same :
      schema.items.map Item.unplaced = (Canonical.spelledItems catalog place).map Item.unplaced) :
    declaredAttributes [schema] = catalog.declaredAttributes := by
  have forget : Item.declares? ∘ Item.unplaced = Item.declares? := by
    funext item
    cases item <;> rfl
  have declared := congrArg (List.filterMap Item.declares?) same
  rw [List.filterMap_map, List.filterMap_map, forget] at declared
  have attrs :
      (catalog.declaredAttributes.map fun name => Item.declareAttribute name place).filterMap
          Item.declares? =
        catalog.declaredAttributes := by
    rw [List.filterMap_map]
    exact List.filterMap_some
  have modules :
      ∀ (ns : List String) (groups : List Catalog.Module),
        (Canonical.spelledModules catalog place ns groups).filterMap Item.declares? = [] := by
    intro ns groups
    rw [List.filterMap_eq_nil_iff]
    intro item mem
    rcases Canonical.of_mem_spelledModules mem with ⟨parts, rfl⟩ | ⟨e, rfl⟩ <;> rfl
  have directives : (Canonical.spelledDirectives catalog place).filterMap Item.declares? = [] := by
    simp only [Canonical.spelledDirectives, List.filterMap_append, List.filterMap_map]
    cases catalog.rootType <;> cases catalog.fileIdentifier <;> cases catalog.fileExtension <;> rfl
  rw [declaredAttributes_eq, List.flatMap_singleton, declared, Canonical.spelledItems,
    List.filterMap_append, List.filterMap_append, attrs, modules, directives,
    List.append_nil, List.append_nil, distinct]

/-! ## Directives -/

/-- A directive does not depend on places. -/
theorem directive_again (ctx : Context) (inForce : Bool)
    (same : again.unplaced = item.unplaced) (s : Directives) :
    Repeats (· = ·) (directive ctx inForce s item) (directive ctx inForce s again) := by
  have self : ctx.Agrees ctx := ⟨rfl, fun _ => rfl, fun _ => rfl, fun _ => rfl⟩
  cases item with
  | rootType name ns span =>
    cases again <;> cases same
    refine .bind (self.resolved name ns _ _) fun _ hit => ?_
    grind [Repeats.pure, Repeats.ofProblem]
  | fileIdentifier v span =>
    cases again <;> cases same
    unfold directive
    dsimp only
    split
    · exact .pure rfl
    · exact .ofProblem
  | fileExtension v span =>
    cases again <;> cases same
    exact .pure rfl
  | declaration decl =>
    cases again with
    | declaration other => exact .pure rfl
    | _ => cases same
  | includeFile | enterScope | declareAttribute =>
    cases again <;> cases same
    exact .pure rfl

/-- Elements that leave the state alone can be passed over. -/
theorem through_append_of_still {s : σ} {passed : List α}
    (still : ∀ elem ∈ passed, step s elem = pure s) (rest : List α) :
    through step s (passed ++ rest) = through step s rest := by
  induction passed with
  | nil => rfl
  | cons hd others ih =>
    rw [List.cons_append, through_cons, still hd List.mem_cons_self]
    exact ih fun elem mem => still elem (List.mem_cons_of_mem _ mem)

theorem through_append_of_given {s next : σ} {toElement : β → α} (absent : given = none → next = s)
    (here : ∀ v, given = some v → step s (toElement v) = pure next) (rest : List α) :
    through step s (given.toList.map toElement ++ rest) = through step next rest := by
  cases given with
  | none =>
    rw [absent rfl]
    rfl
  | some v =>
    change (step s (toElement v) >>= fun post => through step post rest) = _
    rw [here v rfl]
    rfl

/-- The directives of the canonical schema are those of its catalog. -/
theorem directives_spelledItems (place : Span)
    (root :
      let ns := lastScope [] catalog.modules
      ∀ id, catalog.rootType = some id →
        ctx.symbols.resolve (spelling catalog ns id) ns = .resolved id ∧
          ctx.symbols.kind? id = some .table)
    (ident : ∀ v, catalog.fileIdentifier = some v → isFileIdentifier v = true) :
    through (directive ctx true) ⟨none, none, none⟩ (spelledItems catalog place) =
      pure ⟨catalog.rootType, catalog.fileIdentifier, catalog.fileExtension⟩ := by
  have attrs :
      ∀ item ∈ catalog.declaredAttributes.map fun name => Item.declareAttribute name place,
        directive ctx true ⟨none, none, none⟩ item = pure ⟨none, none, none⟩ := by
    intro item mem
    rcases List.mem_map.mp mem with ⟨name, _, rfl⟩
    rfl
  have modules :
      ∀ item ∈ Canonical.spelledModules catalog place [] catalog.modules,
        directive ctx true ⟨none, none, none⟩ item = pure ⟨none, none, none⟩ := by
    intro item mem
    rcases Canonical.of_mem_spelledModules mem with ⟨parts, rfl⟩ | ⟨e, rfl⟩ <;> rfl
  have rooted :
      ∀ id, catalog.rootType = some id →
        directive ctx true ⟨none, none, none⟩
            (.rootType (spelling catalog (lastScope [] catalog.modules) id)
              (lastScope [] catalog.modules) place) = pure ⟨catalog.rootType, none, none⟩ := by
    intro id given
    rcases root id given with ⟨resolved, isTable⟩
    rw [directive, SymbolTable.resolved, resolved, given]
    exact if_pos isTable
  have identified :
      ∀ v, catalog.fileIdentifier = some v →
        directive ctx true ⟨catalog.rootType, none, none⟩ (.fileIdentifier v place) =
          pure ⟨catalog.rootType, catalog.fileIdentifier, none⟩ := by
    intro v given
    rw [directive, if_pos (ident v given), given]
    rfl
  have extended :
      ∀ v, catalog.fileExtension = some v →
        directive ctx true ⟨catalog.rootType, catalog.fileIdentifier, none⟩
            (.fileExtension v place) =
          pure ⟨catalog.rootType, catalog.fileIdentifier, catalog.fileExtension⟩ := by
    intro v given
    rw [given]
    rfl
  rw [spelledItems, List.append_assoc, through_append_of_still attrs,
    through_append_of_still modules, Canonical.spelledDirectives, List.append_assoc,
    through_append_of_given (fun none => by rw [none]) rooted,
    through_append_of_given (fun none => by rw [none]) identified,
    ← List.append_nil (catalog.fileExtension.toList.map _),
    through_append_of_given (fun none => by rw [none]) extended]
  rfl

end Check

namespace Catalog

/-! ## The schema that is read again -/

theorem Keeps.restatedContext {ctx : Check.Context} (keeps : Keeps ctx catalog)
    (global : catalog.Global) (spells : catalog.Spellable)
    (same :
      schema.items.map Item.unplaced = (Canonical.spelledItems catalog place).map Item.unplaced)
    (declared_eq : Check.declaredAttributes [schema] = ctx.declared) :
    Check.RestatedContext ctx (checkContext [schema] (ofSchemas [schema]).value) where
  declared_eq := by
    rw [checkContext, Schema.sortByPath_singleton]
    exact declared_eq
  symbols := by
    have reg := SymbolTable.regular_ofSchemas [schema]
    rcases spells.symbols schema place same with ⟨_, decls, fullNames⟩
    rw [keeps.listedEntries_eq global] at decls fullNames
    have length_eq := congrArg List.length fullNames
    rw [List.length_map, List.length_map, ← keeps.entries.length_eq] at length_eq
    -- Symbols, entries and the symbols of the schema correspond place by place.
    rw [List.forall₂_iff_get]
    refine ⟨length_eq.symm, ?_⟩
    intro i fits insideAgain
    have stands := List.getElem?_eq_getElem fits
    have stands' := List.getElem?_eq_getElem insideAgain
    rcases exists_of_forall₂_left keeps.entries stands with ⟨e, place, kept⟩
    have decl_eq := congrArg (·[i]?) decls
    have fullName_eq := congrArg (·[i]?) fullNames
    dsimp only [checkContext] at stands'
    simp only [List.getElem?_map, stands', place, Option.map_some, Option.some.injEq]
      at decl_eq fullName_eq
    refine keeps.restatedSymbol global (List.getElem_mem fits) (List.mem_of_getElem? place) kept
      ?_ ?_ decl_eq
    · exact (reg.id_eq stands').trans (keeps.regular.id_eq stands).symm
    · rcases kept with ⟨body, rfl, _⟩
      exact fullName_eq

/-- A source that is read and declared without a finding is checked by itself. -/
theorem ofSources_of_parse (quiet : src.parse = ⟨some schema, []⟩)
    (silent : (SymbolTable.ofSchemas [schema]).diagnostics = []) (e : Option Text) :
    ofSources [src] e = ofSymbols [schema] (SymbolTable.ofSchemas [schema]).value e [] := by
  have read : Schema.ofSources [src] = ⟨[schema], []⟩ := by
    simp only [Schema.ofSources, Report.forEach, quiet]
    rfl
  unfold ofSources
  simp_all

/-- The directives of the canonical schema repeat those in force. -/
theorem directives_again
    (ok :
      (ofSymbols schemas (ofSchemas schemas).value e old).value =
        .accepted catalog) (global : catalog.Global) (spells : catalog.Spellable)
    (same :
      schema.items.map Item.unplaced = (Canonical.spelledItems catalog place).map Item.unplaced)
    (starts : start = none ∨ start = some schema.path)
    (agrees : (checkContext schemas (ofSchemas schemas).value).Agrees ctx') :
    Repeats (· = ·)
      (directives (checkContext schemas (ofSchemas schemas).value) e (Schema.sortByPath schemas))
      (directives ctx' start (Schema.sortByPath [schema])) := by
  rw [Schema.sortByPath_singleton]
  intro clean
  have keeps := keeps_of_accepted ok
  have closed := closed_of_accepted ok
  rcases eq_of_accepted ok with ⟨_, _, catalog_eq⟩
  have ident := (Check.holds_of_clean clean).identifiesFile
  have inForce : (start.all fun path => path == schema.path) = true := by
    grind
  have spelled :
      through (directive ctx' true) ⟨none, none, none⟩ (spelledItems catalog place) =
        pure ⟨catalog.rootType, catalog.fileIdentifier, catalog.fileExtension⟩ := by
    refine Check.directives_spelledItems place ?_ ?_
    · intro ns id root
      have isTable := closed.rootIsTable id root
      rcases entry?_of_kind? isTable with ⟨own, stands, _⟩
      rw [show ns = [] from spells.lastScope_eq global, agrees.resolve_eq, agrees.kind?_eq,
        ← keeps.kind?_eq]
      exact ⟨keeps.resolve_spelling global stands, isTable⟩
    grind
  -- The items that were read differ from the canonical ones in their places only.
  have self : List.Forall₂ (· = ·) (spelledItems catalog place) (spelledItems catalog place) :=
    List.forall₂_refl _
  have alike :
      List.Forall₂ (fun item again : Item => again.unplaced = item.unplaced)
        (spelledItems catalog place) schema.items := by
    grind [forall₂_of_map_eq]
  have repeated :
      Repeats (· = ·)
        (through (directive ctx' true) ⟨none, none, none⟩ (spelledItems catalog place))
        (through (directive ctx' true) ⟨none, none, none⟩ schema.items) := by
    grind [Repeats.through, Check.directive_again]
  rw [spelled] at repeated
  rcases repeated (Report.clean_pure _) with ⟨silent, value_eq⟩
  simp only [directives, Report.through_cons, inForce]
  refine ⟨?_, ?_⟩
  · rw [diagnostics_bind, silent]
    rfl
  · rw [value_bind, ← value_eq, catalog_eq]
    rfl

/--
The canonical schema of an accepted catalog gives the catalog back.  It is made, it is read and
checked without a finding, and its catalog is the same in all but the places of the entries: for
entries of the outermost scope, as long as no documentation has a carriage return in it.
-/
theorem canonical_regenerates {schemas : List Schema} {entry : Option Text}
    {earlier : List Diagnostic} {catalog : Catalog}
    (parsed : ∀ schema ∈ schemas, ∃ source : Source, source.parse.schema = some schema)
    (accepted :
      (ofSymbols schemas (SymbolTable.ofSchemas schemas).value entry earlier).value =
        .accepted catalog) (global : ∀ own ∈ catalog.entries, own.scope = [])
    (noReturn : ∀ own ∈ catalog.entries, ∀ line ∈ own.docLines, '\r' ∉ line.toList)
    (options : EmitOptions) (plain : options.style.Plain) :
    ∃ (path : Text) (text : String),
      catalog.emitCanonical options = .ok [⟨.fbs, path, text⟩] ∧
        ∀ start, start = none ∨ start = some path →
          ∃ again,
            ofSources [⟨path, text⟩] start = ⟨.accepted again, []⟩ ∧
              again.unplaced = catalog.unplaced := by
  have regular := SymbolTable.regular_ofSchemas schemas
  have keeps := keeps_of_accepted accepted
  have closed := closed_of_accepted accepted
  have legible : ∀ symbol ∈ (SymbolTable.ofSchemas schemas).value.entries, symbol.decl.Legible :=
    fun _ member => SymbolTable.legible_of_parsed parsed member
  have spellable := keeps.spellable legible
  let path : Text := options.rootModule ++ ".fbs"
  let place := Canonical.span path
  rcases keeps.parse_spelledItems closed legible
      (fun _ listed _ held => keeps.printable_spelledType global legible listed held)
      noReturn plain place path with
    ⟨schema, quiet, path_eq, same⟩
  refine ⟨path, printItems options.style (Canonical.spelledItems catalog place), ?_, ?_⟩
  · rw [emitCanonical, Canonical.items_eq spellable closed place]
    rfl
  · intro start starts
    rw [← path_eq] at starts
    rcases eq_of_accepted accepted with ⟨_, _, catalog_eq⟩
    have declared : catalog.declaredAttributes = _ := congrArg declaredAttributes catalog_eq
    have distinct : catalog.declaredAttributes.eraseDups = catalog.declaredAttributes := by
      rw [declared]
      exact eraseDups_eraseDups _
    -- What is declared, in the same order, comes to the same, and so do the directives.
    have restated :=
      keeps.restatedContext global spellable same
        ((Check.declaredAttributes_again distinct same).trans declared)
    have directed := directives_again accepted global spellable same starts restated.agrees
    rcases ofSymbols_again regular accepted restated directed with ⟨again, checked, alike⟩
    refine ⟨again, ?_, alike⟩
    rcases spellable.symbols schema place same with ⟨silent, _⟩
    rw [ofSources_of_parse quiet silent]
    exact checked

end Catalog

/-- A source with each kind of declaration, with flags, an aligned struct and defaults that are
easily lost. -/
def dotSource : Source :=
  ⟨"dot.fbs", "attribute \"unit\";enum Ink:ubyte(bit_flags)\x7bRed,Jet=3\x7d" ++
    "struct At(force_align:8)\x7bx:float(unit:mm);\x7d/// A dot.\n" ++
    "table Dot\x7bink:Ink=Jet;low:double=-0.0;top:float=nan;at:[At];any:Any;\x7d" ++
    "union Any\x7bDot\x7drpc_service Log\x7bput(Dot):Dot;\x7d" ++
    "root_type Dot;file_identifier \"DOTS\";"⟩

theorem canonical_regenerates_dot :
    ∃ schema catalog path text again,
      dotSource.parse.schema = some schema ∧
        (Catalog.ofSymbols [schema] (ofSchemas [schema]).value none []).value = .accepted catalog ∧
        catalog.entries.map Catalog.Entry.fullName = ["Ink", "At", "Dot", "Any", "Log"] ∧
        catalog.emitCanonical .standard = .ok [⟨.fbs, path, Text.ofString text⟩] ∧
        Catalog.ofSources [⟨path, text⟩] none = ⟨.accepted again, []⟩ ∧
        again.unplaced = catalog.unplaced := by
  have evaluated :
      (dotSource.accepted?.map fun (_, catalog) =>
        (catalog.entries.map Catalog.Entry.fullName,
          catalog.entries.all fun own =>
            own.scope.isEmpty && own.docLines.all fun line => !line.toList.contains '\r')) =
        some (["Ink", "At", "Dot", "Any", "Log"], true) := by
    decide +kernel
  rcases Option.map_eq_some_iff.mp evaluated with ⟨⟨schema, catalog⟩, found, values⟩
  have entries := List.all_eq_true.mp (congrArg Prod.snd values)
  rcases Source.of_accepted? found with ⟨parsed, accepted⟩
  have read : ∀ own ∈ [schema], ∃ source : Source, source.parse.schema = some own := by
    intro own member
    rw [List.mem_singleton.mp member]
    exact ⟨dotSource, parsed⟩
  have global : ∀ own ∈ catalog.entries, own.scope = [] := by
    intro own member
    have holds := entries own member
    rw [Bool.and_eq_true, List.isEmpty_iff] at holds
    exact holds.1
  have noReturn : ∀ own ∈ catalog.entries, ∀ line ∈ own.docLines, '\r' ∉ line.toList := by
    intro own member line inside
    have holds := entries own member
    rw [Bool.and_eq_true, List.all_eq_true] at holds
    simpa using holds.2 line inside
  rcases Catalog.canonical_regenerates read accepted global noReturn .standard
      PrintStyle.plain_standard with
    ⟨path, text, made, checked⟩
  rcases checked none (.inl rfl) with ⟨again, silent, alike⟩
  exact ⟨schema, catalog, path, text, again, parsed, accepted, congrArg Prod.fst values, made,
    silent, alike⟩

end FlatSchema
