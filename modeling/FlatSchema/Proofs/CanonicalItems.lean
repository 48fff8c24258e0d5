import FlatSchema.Emit.Canonical
import FlatSchema.Proofs.ClosedCatalog
import FlatSchema.Proofs.Outcome
import FlatSchema.Proofs.PrintRoundTrip

/-!
# The items of a canonical schema

The canonical schema of a catalog is built step by step, and each step may ask
for an entry.  For the catalog of parsed schemas no step fails, so the items
can be given outright: each reference by its `spelling`, each declaration by
the entry that it repeats.  The names of such a catalog are words, and
therefore its items can be written down and are read back from their text,
unless a field type is spelled like a built-in type.
-/

namespace FlatSchema

open Canonical (scopeParts)
open Catalog (Entry Module)
open Item (decl? declaration scopeAfter)

variable {modules : List Module} {c : Catalog}

/-! ## Words and the dots between them -/

theorem IsName.no_dot (isName : IsName name) : '.' ∉ name.toList := by
  rcases isName.1 with ⟨hd, rest, split, starts, parts⟩
  rw [split, List.mem_cons]
  rintro (rfl | fits)
  · exact absurd starts (by decide)
  · exact absurd (parts _ fits) (by decide)

theorem IsName.ne_empty (isName : IsName name) : name ≠ "" := by
  rintro rfl
  rcases isName.1 with ⟨hd, rest, split, _⟩
  cases split

/-- A qualified name is a list of words with dots between them. -/
theorem qualify_eq (ns : List String) (name : String) :
    qualify ns name = ".".intercalate (ns ++ [name]) := by
  cases ns with
  | nil => rw [List.nil_append, String.intercalate_singleton]; rfl
  | cons hd rest =>
    rw [String.intercalate_append_of_ne_nil (List.cons_ne_nil _ _) (List.cons_ne_nil _ _)]
    rfl

theorem isPath_of_isName (isName : IsName name) : IsPath name := by
  refine ⟨[name], List.cons_ne_nil _ _, ?_, String.intercalate_singleton.symm⟩
  grind

theorem isPath_qualify (areNames : ∀ part ∈ ns, IsName part) (isName : IsName name) :
    IsPath (qualify ns name) := by
  refine ⟨ns ++ [name], by simp, ?_, qualify_eq ns name⟩
  grind

namespace Canonical

/-- The parts of a scope are found again in its text. -/
theorem scopeParts_intercalate (areNames : ∀ part ∈ ns, IsName part) :
    scopeParts (".".intercalate ns) = ns := by
  cases ns with
  | nil => rfl
  | cons fst rest =>
    have full : ¬(".".intercalate (fst :: rest)).isEmpty = true := by
      intro empty
      have text : ".".intercalate (fst :: rest) = "" := String.isEmpty_iff.mp empty
      have none := congrArg String.toList text
      rw [String.toList_intercalate, List.map_cons] at none
      cases rest with
      | nil =>
        rw [List.map_nil, List.intercalate_singleton] at none
        exact (areNames fst List.mem_cons_self).ne_empty (String.toList_eq_nil_iff.mp none)
      | cons snd rest =>
        simp at none
    rw [scopeParts, String.toList_intercalate]
    have dotless : ∀ part ∈ (fst :: rest).map String.toList, '.' ∉ part := by
      grind [IsName.no_dot]
    have split := List.splitOn_intercalate '.' dotless (by simp)
    simp_all

/-- Two scopes of one text are the same. -/
theorem scope_eq_of_text (leftNames : ∀ part ∈ left, IsName part)
    (rightNames : ∀ part ∈ right, IsName part)
    (text : ".".intercalate left = ".".intercalate right) : left = right := by
  rw [← scopeParts_intercalate leftNames, text, scopeParts_intercalate rightNames]

end Canonical

/-! ## Declarations that were read from a text -/

/-- A declaration whose words can be read off a text again. -/
structure Decl.Legible (dec : Decl) : Prop where
  printable : dec.Printable dec.scope
  scope : ∀ part ∈ dec.scope, IsName part
  unbroken : ∀ line ∈ dec.docLines, '\n' ∉ line.toList

theorem Item.scopeAfter_areNames {item : Item} (areNames : ∀ part ∈ ns, IsName part)
    (prints : item.Printable ns) : ∀ part ∈ item.scopeAfter ns, IsName part := by
  cases item with
  | enterScope => exact prints
  | includeFile | declareAttribute | rootType | fileIdentifier | fileExtension | declaration =>
    exact areNames

/-- A declaration among printable items stands in a scope of names. -/
theorem ItemsPrintable.declaration (prints : ItemsPrintable ns items)
    (areNames : ∀ part ∈ ns, IsName part) (mem : Item.declaration decl ∈ items) :
    decl.Printable decl.scope ∧ ∀ part ∈ decl.scope, IsName part := by
  induction prints with
  | nil => cases mem
  | @cons ns item items hd _ ih =>
    rcases List.mem_cons.mp mem with rfl | later
    · rw [hd.scope_eq]
      exact ⟨hd, areNames⟩
    · exact ih (Item.scopeAfter_areNames areNames hd) later

theorem Schema.legible_of_parsed {source : Source} (parsed : source.parse.schema = some sch)
    (mem : decl ∈ sch.decls) :
    decl.Legible := by
  rcases List.mem_filterMap.mp mem with ⟨item, fits, isDecl⟩
  cases item with
  | declaration own =>
    cases isDecl
    cases hit : source.tokens with
    | error diagnostic =>
      rw [Source.parse, hit] at parsed
      cases parsed
    | ok toks =>
      rcases Source.parse_printable hit with ⟨again, same, prints, unbroken⟩
      cases parsed.symm.trans same
      rcases prints.declaration (by simp) fits with ⟨prints, ns⟩
      exact ⟨prints, ns, unbroken _ fits⟩
  | includeFile | enterScope | declareAttribute | rootType | fileIdentifier | fileExtension =>
    cases isDecl

namespace SymbolTable

theorem mem_mergedDecls (mem : sym ∈ (ofSchemas schemas).value.entries) :
    sym.decl ∈ mergedDecls schemas := by
  rw [ofSchemas, Report.value_through] at mem
  suffices general :
      ∀ (decls : List Decl) (t : SymbolTable),
        sym ∈ (decls.foldl (fun t decl => (declare t decl).value) t).entries →
        sym ∈ t.entries ∨ sym.decl ∈ decls by
    rcases general _ _ mem with fits | raw
    · cases fits
    · exact raw
  intro decls
  induction decls with
  | nil =>
    intro t fits
    exact .inl fits
  | cons hd rest ih =>
    intro t fits
    rcases ih _ fits with earlier | later
    · unfold declare at earlier
      simp only at earlier
      split at earlier
      · exact .inl earlier
      · rcases List.mem_append.mp earlier with old | new
        · exact .inl old
        grind
    · exact .inr (List.mem_cons_of_mem _ later)

theorem legible_of_parsed
    (parsed : ∀ sch ∈ schemas, ∃ source : Source, source.parse.schema = some sch)
    (mem : sym ∈ (ofSchemas schemas).value.entries) : sym.decl.Legible := by
  rcases List.mem_flatMap.mp (mem_mergedDecls mem) with ⟨sch, sorted, fits⟩
  rcases parsed sch (List.mem_mergeSort.mp sorted) with ⟨source, read⟩
  exact Schema.legible_of_parsed read fits

end SymbolTable

/-! ## Catalogs that can be spelled -/

namespace Catalog

/-- A module of the entries of one scope. -/
structure Module.Regular (c : Catalog) (group : Module) : Prop where
  filled : group.ids ≠ []
  text : ".".intercalate (scopeParts group.scope) = group.scope
  areNames : ∀ part ∈ scopeParts group.scope, IsName part
  entries : ∀ id ∈ group.ids, ∃ e, c.entry? id = some e ∧ e.scope = scopeParts group.scope

/-- A catalog whose names are words, no two of them alike, and whose modules hold its entries. -/
structure Spellable (c : Catalog) : Prop where
  name : ∀ e ∈ c.entries, IsName e.name
  scope : ∀ e ∈ c.entries, ∀ part ∈ e.scope, IsName part
  fullName_eq : ∀ e ∈ c.entries, e.fullName = qualify e.scope e.name
  nodup_fullNames : (c.entries.map Entry.fullName).Nodup
  modules : ∀ group ∈ c.modules, group.Regular c
  listed : (c.modules.flatMap Module.ids).Perm (List.range c.entries.length)

end Catalog

namespace Check

/-- A module that holds numbers of entries of its scope only. -/
structure Gathers (es : List Entry) (group : Module) : Prop where
  filled : group.ids ≠ []
  own : ∀ id ∈ group.ids, ∃ e ∈ es, e.id = id ∧ ".".intercalate e.scope = group.scope

theorem gathers_addToModule (gathers : ∀ group ∈ modules, Gathers es group) (mem : e ∈ es) :
    ∀ group ∈ addToModule modules e, Gathers es group := by
  intro group fits
  unfold addToModule at fits
  simp only at fits
  split at fits
  · rcases List.mem_map.mp fits with ⟨old, oldInside, rfl⟩
    have pre := gathers old oldInside
    split
    · next same =>
        refine ⟨by simp, ?_⟩
        intro id listed
        rcases List.mem_append.mp listed with earlier | last
        · exact pre.own id earlier
        grind
    · exact pre
  · rcases List.mem_append.mp fits with old | new
    · exact gathers group old
    · rw [List.mem_singleton.mp new]
      refine ⟨List.cons_ne_nil _ _, ?_⟩
      grind

theorem gathers_modulesOf (es : List Entry) : ∀ group ∈ modulesOf es, Gathers es group := by
  suffices general :
      ∀ (rest : List Entry) (modules : List Module),
        rest ⊆ es → (∀ group ∈ modules, Gathers es group) →
        ∀ group ∈ rest.foldl addToModule modules, Gathers es group from
    general es [] (fun _ mem => mem) (by simp)
  intro rest
  induction rest with
  | nil =>
    intro modules _ gathers
    exact gathers
  | cons hd rest ih =>
    grind [gathers_addToModule, List.mem_cons_of_mem, List.mem_cons_self]

end Check

namespace Catalog

theorem Keeps.spellable (keeps : Keeps ctx c)
    (legible : ∀ sym ∈ ctx.symbols.entries, sym.decl.Legible) : Spellable c := by
  have complete := keeps.complete
  have src : ∀ e ∈ c.entries, ∃ sym ∈ ctx.symbols.entries, ∃ body, e = Check.entryOf sym body := by
    intro e mem
    rcases List.getElem?_of_mem mem with ⟨i, place⟩
    rcases exists_of_forall₂_right keeps.entries place with ⟨sym, stands, body, same, _⟩
    exact ⟨sym, List.mem_of_getElem? stands, body, same⟩
  have ns : ∀ e ∈ c.entries, ∀ part ∈ e.scope, IsName part := by
    grind [Decl.Legible.scope, Check.entryOf, IsName]
  refine ⟨?_, ns, ?_, ?_, ?_, complete.modules_perm⟩
  · intro e mem
    rcases src e mem with ⟨sym, fits, body, rfl⟩
    exact (legible sym fits).printable.name
  · intro e mem
    rcases src e mem with ⟨sym, fits, body, rfl⟩
    exact keeps.regular.fullName_eq sym fits
  · rw [map_eq_of_forall₂ complete.declares fun _ _ declares => declares.fullName_eq]
    exact keeps.regular.nodup_fullNames
  · intro group mem
    rw [keeps.modules_eq] at mem
    have gathers := Check.gathers_modulesOf c.entries group mem
    -- All numbers of a module have entries of its scope, and there is at least one.
    have parts :
        ∀ e ∈ c.entries, ".".intercalate e.scope = group.scope →
          e.scope = scopeParts group.scope := by
      grind [Canonical.scopeParts_intercalate]
    rcases List.exists_mem_of_ne_nil group.ids gathers.filled with ⟨one, listed⟩
    rcases gathers.own one listed with ⟨e, fits, _, text⟩
    refine ⟨gathers.filled, ?_, ?_, ?_⟩
    · rw [← parts e fits text, text]
    · grind
    · intro id listed
      rcases gathers.own id listed with ⟨own, fits, rfl, text⟩
      rcases List.getElem?_of_mem fits with ⟨i, place⟩
      have num : own.id = i := by
        have numbers := congrArg (·[i]?) complete.ids_eq
        grind
      refine ⟨own, ?_, parts own fits text⟩
      rw [num]
      exact place

end Catalog

/-! ## The items outright -/

namespace Canonical

section

variable (c : Catalog)

section

variable (ns : List String)

/-- How an entry is spelled where a scope is in effect. -/
def spelling (id : Nat) : String :=
  match c.entry? id with
  | some e => if e.scope = ns then e.name else e.fullName
  | none => ""

def spelledType (ns : List String) (span : Span) : FieldType → TypeExpr
  | .scalar kind => .scalar kind span
  | .string => .string span
  | .vector elem => .vector (spelledType ns span elem) span
  | .named id => .named (spelling c ns id) span

variable (span : Span)

def spelledStructField (f : Catalog.StructField) : Field :=
  ⟨f.name, spelledType c ns span f.type, none,
    attributesOf span f.attributes, f.doc, span⟩

def spelledTableField (f : Catalog.TableField) : Field :=
  ⟨f.name, spelledType c ns span f.type,
    (defaultOf f.default).map fun v => ⟨v, span⟩,
    attributesOf span f.attributes, f.doc, span⟩

def spelledMethod (method : Catalog.Method) : Method :=
  ⟨method.name, spelling c ns method.request, spelling c ns method.response,
    attributesOf span method.attributes, method.doc, span⟩

def spelledVariant (alt : Catalog.Variant) : Variant :=
  ⟨spelling c ns alt.table, alt.doc, span⟩

def spelledValue (bitFlags : Bool) (span : Span) (v : Catalog.EnumValue) : EnumValue :=
  ⟨v.name, some (enumNumber bitFlags v.value), v.doc, span⟩

def spelledBody : Catalog.Body → DeclBody
  | .enum ty =>
    .enum (.scalar ty.underlying span) (ty.values.map (spelledValue ty.bitFlags span))
  | .union ty => .union (ty.variants.map (spelledVariant c ns span))
  | .struct ty => .struct (ty.fields.map (spelledStructField c ns span))
  | .table ty => .table (ty.fields.map (spelledTableField c ns span))
  | .service ty => .service (ty.methods.map (spelledMethod c ns span))

end

/-- The declaration that repeats an entry. -/
def spelledDecl (e : Entry) : Decl :=
  ⟨e.name, e.scope, e.doc, attributesOf e.span e.attributes,
    spelledBody c e.scope e.span e.body, e.span⟩

/-- The step from the scope in effect to another one. -/
def entering (place : Span) (ns own : List String) : List Item :=
  if own = ns then [] else [.enterScope own place]

/-- The declarations of modules, after the given scope was in effect. -/
def spelledModules (place : Span) (ns : List String) : List Module → List Item
  | [] => []
  | group :: rest =>
    let own := scopeParts group.scope
    entering place ns own ++
      ((group.ids.filterMap c.entry?).map fun e =>
          declaration (spelledDecl c e)) ++
        spelledModules place own rest

/-- The scope in effect after modules. -/
def lastScope (ns : List String) : List Module → List String
  | [] => ns
  | group :: rest => lastScope (scopeParts group.scope) rest

/-- The directives at the end. -/
def spelledDirectives (place : Span) : List Item :=
  let ns := lastScope [] c.modules
  (c.rootType.toList.map fun id => Item.rootType (spelling c ns id) ns place) ++
    (c.fileIdentifier.toList.map fun v => Item.fileIdentifier v place) ++
      (c.fileExtension.toList.map fun v => Item.fileExtension v place)

def spelledItems (place : Span) : List Item :=
  (c.declaredAttributes.map fun name => Item.declareAttribute name place) ++
    spelledModules c place [] c.modules ++ spelledDirectives c place

end

variable {c : Catalog}

theorem spelling_eq {id : Nat} (stands : c.entry? id = some e) :
    spelling c ns id = if e.scope = ns then e.name else e.fullName := by
  rw [spelling, stands]

section

variable (spells : c.Spellable)
include spells

theorem isPath_spelling {id : Nat} (stands : c.entry? id = some e) : IsPath (spelling c ns id) := by
  have mem := List.mem_of_getElem? stands
  have isName := spells.name e mem
  rw [spelling_eq stands]
  split
  · exact isPath_of_isName isName
  · rw [spells.fullName_eq e mem]
    exact isPath_qualify (spells.scope e mem) isName

variable {ns : List String} (areNames : ∀ part ∈ ns, IsName part)
include areNames

theorem nameIn_eq {id : Nat} (stands : c.entry? id = some e) :
    nameIn c (".".intercalate ns) id = .ok (spelling c ns id) := by
  have sameScope : scopeOf e = ".".intercalate ns ↔ e.scope = ns := by
    constructor
    · exact scope_eq_of_text (spells.scope e (List.mem_of_getElem? stands)) areNames
    · intro same
      rw [scopeOf, same]
  simp_all [entryOf, nameIn, spelling_eq]

theorem typeExpr_eq (span : Span) (isKnown : c.Known ty) :
    typeExpr c (".".intercalate ns) span ty = .ok (spelledType c ns span ty) := by
  induction ty with
  | scalar | string => rfl
  | vector elem ih =>
    rw [typeExpr, ih isKnown]
    rfl
  | named id =>
    rcases isKnown with ⟨e, stands⟩
    rw [typeExpr, nameIn_eq spells areNames stands]
    rfl

theorem bodyOf_eq (span : Span) (closed : c.ClosedBody body) :
    bodyOf c (".".intercalate ns) span body = .ok (spelledBody c ns span body) := by
  have message :
      ∀ id, c.kind? id = some .table →
        nameIn c (".".intercalate ns) id = .ok (spelling c ns id) := by
    grind [Catalog.entry?_of_kind?, nameIn_eq]
  cases closed with
  | enum ty => rfl
  | @union ty isTable =>
    have each :
        ∀ alt ∈ ty.variants,
          (do
              let name ← nameIn c (".".intercalate ns) alt.table
              return (⟨name, alt.doc, span⟩ : Variant) : Except EmitError Variant) =
            .ok (spelledVariant c ns span alt) := by
      intro alt mem
      rw [message _ (isTable alt mem)]
      rfl
    rw [bodyOf, mapM_eq_ok each]
    rfl
  | @struct ty isInline =>
    have each :
        ∀ f ∈ ty.fields,
          structField c (".".intercalate ns) span f = .ok (spelledStructField c ns span f) := by
      intro f mem
      have isKnown := (isInline f mem).known
      rw [structField, typeExpr_eq spells areNames span isKnown]
      rfl
    rw [bodyOf, mapM_eq_ok each]
    rfl
  | @table ty isMember _ =>
    have each :
        ∀ f ∈ ty.fields,
          tableField c (".".intercalate ns) span f = .ok (spelledTableField c ns span f) := by
      intro f mem
      have isKnown := (isMember f mem).known
      rw [tableField, typeExpr_eq spells areNames span isKnown]
      rfl
    rw [bodyOf, mapM_eq_ok each]
    rfl
  | @service ty isTable =>
    have each :
        ∀ method ∈ ty.methods,
          (do
              let request ← nameIn c (".".intercalate ns) method.request
              let response ← nameIn c (".".intercalate ns) method.response
              return (⟨method.name, request, response, attributesOf span method.attributes,
                method.doc, span⟩ : Method) : Except EmitError Method) =
            .ok (spelledMethod c ns span method) := by
      intro method mem
      rw [message _ (isTable method mem).1, message _ (isTable method mem).2]
      rfl
    rw [bodyOf, mapM_eq_ok each]
    rfl

end

theorem areNames_lastScope (areNames : ∀ part ∈ ns, IsName part)
    (reg : ∀ group ∈ modules, group.Regular c) : ∀ part ∈ lastScope ns modules, IsName part := by
  induction modules generalizing ns with
  | nil => exact areNames
  | cons group rest ih =>
    exact ih (reg group List.mem_cons_self).areNames fun later mem =>
      reg later (List.mem_cons_of_mem _ mem)

section

variable (spells : c.Spellable) (closed : c.Closed)
include spells closed

theorem declOf_eq {id : Nat} (stands : c.entry? id = some e) :
    declOf c (".".intercalate e.scope) id = .ok (.declaration (spelledDecl c e)) := by
  have mem := List.mem_of_getElem? stands
  have hit : entryOf c id = .ok e := by rw [entryOf, stands]
  have body := bodyOf_eq spells (spells.scope e mem) e.span (closed.bodies e mem)
  rw [declOf, hit]
  simp only [bind, Except.bind, body]
  rfl

theorem mapM_declOf_eq {group : Module} {ids : List Nat}
    (text : ".".intercalate (scopeParts group.scope) = group.scope)
    (es : ∀ id ∈ ids, ∃ e, c.entry? id = some e ∧ e.scope = scopeParts group.scope) :
    ids.mapM (declOf c group.scope) =
      .ok ((ids.filterMap c.entry?).map fun e => declaration (spelledDecl c e)) := by
  induction ids with
  | nil => rfl
  | cons hd rest ih =>
    rcases es hd List.mem_cons_self with ⟨e, stands, ns⟩
    have head := declOf_eq spells closed stands
    rw [ns, text] at head
    rw [List.mapM_cons, head, ih fun id mem => es id (List.mem_cons_of_mem _ mem),
      List.filterMap_cons_some stands]
    rfl

theorem scopeItems_eq (place : Span) {ns : List String} (areNames : ∀ part ∈ ns, IsName part)
    (reg : ∀ group ∈ modules, group.Regular c) :
    scopeItems c place (".".intercalate ns) modules =
      .ok (spelledModules c place ns modules, ".".intercalate (lastScope ns modules)) := by
  induction modules generalizing ns with
  | nil => rfl
  | cons group rest ih =>
    have own := reg group List.mem_cons_self
    have full : ¬group.ids.isEmpty = true := by
      rw [List.isEmpty_iff]
      exact own.filled
    have sameScope : group.scope = ".".intercalate ns ↔ scopeParts group.scope = ns := by
      grind [scopeParts_intercalate, Module.Regular.text]
    have tail := ih own.areNames fun later mem => reg later (List.mem_cons_of_mem _ mem)
    rw [own.text] at tail
    rw [scopeItems, if_neg full, mapM_declOf_eq spells closed own.text own.entries]
    simp only [bind, Except.bind, tail, sameScope]
    rfl

/-- The items of the catalog of parsed schemas. -/
theorem items_eq (place : Span) : items c place = .ok (spelledItems c place) := by
  have global : ∀ part ∈ ([] : List String), IsName part := by simp
  have areNames := areNames_lastScope global spells.modules
  have modules : scopeItems c place "" c.modules = _ :=
    scopeItems_eq spells closed place global spells.modules
  have root :
      ∀ id ∈ c.rootType.toList,
        (do
            let name ← nameIn c (".".intercalate (lastScope [] c.modules)) id
            return Item.rootType name
              (scopeParts (".".intercalate (lastScope [] c.modules))) place :
            Except EmitError Item) =
          .ok (.rootType (spelling c (lastScope [] c.modules) id)
            (lastScope [] c.modules) place) := by
    intro id mem
    rcases Catalog.entry?_of_kind? (closed.rootIsTable id (Option.mem_toList.mp mem)) with
      ⟨e, stands, _⟩
    rw [nameIn_eq spells areNames stands, scopeParts_intercalate areNames]
    rfl
  rw [items, modules]
  change ((c.rootType.toList.mapM _ : Except EmitError (List Item)) >>= _) = _
  rw [mapM_eq_ok root]
  simp only [bind, Except.bind, spelledItems, spelledDirectives, List.append_assoc]
  rfl

end

end Canonical

/-! ## The scopes in effect among the items -/

/-- Items that each leave the scope alone leave it alone together. -/
theorem foldl_scopeAfter_map {toItem : α → Item}
    (still : ∀ elem, (toItem elem).scopeAfter ns = ns) (elems : List α) :
    (elems.map toItem).foldl scopeAfter ns = ns := by
  induction elems with
  | nil => rfl
  | cons hd rest ih => rw [List.map_cons, List.foldl_cons, still, ih]

namespace Canonical

theorem foldl_entering (place : Span) (ns own : List String) :
    (entering place ns own).foldl scopeAfter ns = own := by
  unfold entering
  split
  · next same => exact same.symm
  · rfl

theorem foldl_spelledModules (c : Catalog) (place : Span) (ns : List String)
    (modules : List Module) :
    (spelledModules c place ns modules).foldl scopeAfter ns = lastScope ns modules := by
  induction modules generalizing ns with
  | nil => rfl
  | cons group rest ih =>
    rw [spelledModules, List.foldl_append, List.foldl_append, foldl_entering,
      foldl_scopeAfter_map fun _ => rfl, ih, lastScope]

end Canonical

/-! ## The declarations among the items -/

/-- Items without places have the declarations without places. -/
theorem Item.filterMap_decl?_unplaced (items : List Item) :
    (items.map Item.unplaced).filterMap decl? = (items.filterMap decl?).map Decl.unplaced := by
  rw [List.filterMap_map, List.map_filterMap]
  refine congrFun (congrArg List.filterMap ?_) items
  funext item
  cases item <;> rfl

namespace Catalog

/-- The entries of a catalog in the order of its modules. -/
def listedEntries (c : Catalog) : List Entry :=
  (c.modules.flatMap Module.ids).filterMap c.entry?

/-- Looking up all places of a list gives the list. -/
theorem filterMap_range_getElem? (elems : List α) :
    (List.range elems.length).filterMap (fun i => elems[i]?) = elems := by
  induction elems with
  | nil => rfl
  | cons hd rest ih =>
    rw [List.length_cons, List.range_succ_eq_map, List.filterMap_cons, List.filterMap_map]
    exact congrArg (hd :: ·) ih

/-- Each entry is listed once. -/
theorem Spellable.listedEntries_perm (spells : c.Spellable) : c.listedEntries.Perm c.entries := by
  have listed := spells.listed.filterMap c.entry?
  rwa [show (List.range c.entries.length).filterMap c.entry? = c.entries from
    filterMap_range_getElem? c.entries] at listed

end Catalog

namespace Canonical

theorem of_mem_spelledModules (mem : item ∈ spelledModules c place ns modules) :
    (∃ parts, item = .enterScope parts place) ∨ ∃ e, item = .declaration (spelledDecl c e) := by
  induction modules generalizing ns with
  | nil => cases mem
  | cons group rest ih =>
    rw [spelledModules, List.mem_append, List.mem_append] at mem
    rcases mem with (entered | declared) | later
    · unfold entering at entered
      split at entered
      · cases entered
      · exact .inl ⟨_, List.mem_singleton.mp entered⟩
    · grind
    · exact ih later

theorem filterMap_decl?_spelledModules (place : Span) (ns : List String) (modules : List Module) :
    (spelledModules c place ns modules).filterMap decl? =
      ((modules.flatMap Module.ids).filterMap c.entry?).map (spelledDecl c) := by
  have declared :
      ∀ es : List Entry,
        (es.map fun e => declaration (spelledDecl c e)).filterMap decl? =
          es.map (spelledDecl c) := by
    intro es
    rw [List.filterMap_map]
    exact congrFun List.filterMap_eq_map es
  induction modules generalizing ns with
  | nil => rfl
  | cons group rest ih =>
    rw [spelledModules, List.filterMap_append, List.filterMap_append, ih, declared,
      List.flatMap_cons, List.filterMap_append, List.map_append, entering]
    split <;> rfl

/-- The declarations of the canonical schema repeat the entries. -/
theorem filterMap_decl?_spelledItems (c : Catalog) (place : Span) :
    (spelledItems c place).filterMap decl? = c.listedEntries.map (spelledDecl c) := by
  have attrs :
      (c.declaredAttributes.map fun name => Item.declareAttribute name place).filterMap
        decl? = [] := by
    simp [decl?]
  have directives : (spelledDirectives c place).filterMap decl? = [] := by
    simp_all [spelledDirectives, decl?]
  rw [spelledItems, List.filterMap_append, List.filterMap_append, attrs, directives,
    filterMap_decl?_spelledModules, List.nil_append, List.append_nil, Catalog.listedEntries]

end Canonical

end FlatSchema
