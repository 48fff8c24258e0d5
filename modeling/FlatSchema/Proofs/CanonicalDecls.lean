import FlatSchema.Proofs.CanonicalText
import FlatSchema.Proofs.RestatedCatalog

/-!
# Canonical declarations of the outermost scope

If all entries of a catalog stand in the outermost scope, each is spelled by
its name alone, and this is also the only name that can mean it.  So the
types, variants and messages of the canonical declarations are written as they
were, and each canonical declaration restates the one that its entry was made
from.
-/

namespace FlatSchema

open Attribute (toCatalog unplaced)
open Canonical (lastScope spelledBody spelledDecl spelledType spelling spelling_eq)
open Catalog (Entry)

variable {span : Span}

/-! ## One module -/

namespace Check

theorem foldl_addToModule_global {es : List Entry}
    (global : ∀ e ∈ es, e.scope = []) (ids : List Nat) :
    es.foldl addToModule [⟨"", ids⟩] = [⟨"", ids ++ es.map Entry.id⟩] := by
  induction es generalizing ids with
  | nil => rw [List.foldl_nil, List.map_nil, List.append_nil]
  | cons hd rest ih =>
    simp_all [addToModule]

/-- The modules of entries of the outermost scope list them in their order. -/
theorem ids_modulesOf_global {es : List Entry} (global : ∀ e ∈ es, e.scope = []) :
    (modulesOf es).flatMap Catalog.Module.ids = es.map Entry.id := by
  cases es with
  | nil => rfl
  | cons hd rest =>
    have added : addToModule [] hd = [⟨"", [hd.id]⟩] := by
      rw [addToModule, global hd List.mem_cons_self]
      rfl
    rw [modulesOf, List.foldl_cons, added,
      foldl_addToModule_global fun e mem => global e (List.mem_cons_of_mem _ mem),
      List.flatMap_singleton, List.singleton_append, List.map_cons]

end Check

namespace Catalog

/-- All entries stand in the outermost scope. -/
def Global (c : Catalog) : Prop :=
  ∀ e ∈ c.entries, e.scope = []

theorem Keeps.listedEntries_eq (keeps : Keeps ctx c) (global : c.Global) :
    c.listedEntries = c.entries := by
  rw [listedEntries, keeps.modules_eq, Check.ids_modulesOf_global global, keeps.complete.ids_eq]
  exact filterMap_range_getElem? c.entries

theorem Spellable.lastScope_eq {c : Catalog} (spells : c.Spellable) (global : c.Global) :
    lastScope [] c.modules = [] := by
  have modules := spells.modules
  generalize c.modules = groups at modules ⊢
  induction groups with
  | nil => rfl
  | cons group rest ih =>
    have own := modules group List.mem_cons_self
    rcases List.exists_mem_of_ne_nil group.ids own.filled with ⟨id, listed⟩
    rcases own.entries id listed with ⟨e, stands, ns⟩
    rw [lastScope, ← ns, global e (List.mem_of_getElem? stands)]
    exact ih fun later mem => modules later (List.mem_cons_of_mem _ mem)

end Catalog

/-! ## Names and types -/

theorem TypeExpr.printable_unplaced {ty : TypeExpr} (prints : ty.Printable) :
    ty.unplaced.Printable := by
  induction ty with
  | scalar | string => trivial
  | vector elem span ih => exact ih prints
  | named name span => exact prints

namespace Catalog

section

variable {ctx : Check.Context} {c : Catalog} (keeps : Keeps ctx c)
variable (global : c.Global)
include keeps global

/-- The entry of a symbol has its name alone as its full name. -/
theorem Keeps.fullName_eq_name {id : Nat} (stands : c.entry? id = some e) :
    e.fullName = e.name := by
  rcases exists_of_forall₂_right keeps.entries stands with ⟨sym, hit, body, rfl, _⟩
  have ns : sym.decl.scope = [] := global _ (List.mem_of_getElem? stands)
  change sym.fullName = sym.decl.name
  rw [keeps.regular.fullName_eq sym (List.mem_of_getElem? hit), ns]
  rfl

theorem Keeps.spelling_of_resolve {id : Nat}
    (resolved : ctx.symbols.resolve name [] = .resolved id) : spelling c [] id = name := by
  have hit := SymbolTable.resolve_outermost_iff.mp resolved
  rcases keeps.regular.getElem?_of_find? hit with ⟨sym, stands, named⟩
  rcases exists_of_forall₂_left keeps.entries stands with ⟨e, place, body, rfl, _⟩
  have fullName := keeps.fullName_eq_name global place
  rw [spelling_eq place, if_pos (global _ (List.mem_of_getElem? place)), ← fullName]
  exact named

theorem Keeps.resolve_spelling {id : Nat} (stands : c.entry? id = some e) :
    ctx.symbols.resolve (spelling c [] id) [] = .resolved id := by
  have fullName := keeps.fullName_eq_name global stands
  rw [spelling_eq stands, if_pos (global _ (List.mem_of_getElem? stands)), ← fullName,
    SymbolTable.resolve_outermost_iff]
  rcases exists_of_forall₂_right keeps.entries stands with ⟨sym, hit, body, rfl, _⟩
  exact keeps.regular.find?_of_getElem? hit

theorem Keeps.unplaced_spelledType (span : Span) (means : Check.Denotes ctx.symbols [] raw ty) :
    (spelledType c [] span ty).unplaced = raw.unplaced := by
  induction means with
  | scalar | string => rfl
  | named _ resolved =>
    rw [spelledType, keeps.spelling_of_resolve global resolved]
    rfl
  | vector _ _ _ _ _ ih =>
    rw [Canonical.spelledType, TypeExpr.unplaced, TypeExpr.unplaced, ih]

end

end Catalog

/-! ## Attributes -/

theorem Attribute.toCatalog_unplaced (own : Attribute) :
    own.unplaced.toCatalog = own.toCatalog := by
  rw [toCatalog, unplaced, Option.map_map]
  rfl

theorem Canonical.map_toCatalog_attributesOf (span : Span) (attrs : List Catalog.Attribute) :
    (attributesOf span attrs).map Attribute.toCatalog = attrs := by
  have each : ∀ v : AttributeValue, (literalOf v).toAttributeValue = v := by
    intro v
    cases v <;> rfl
  rw [attributesOf, List.map_map]
  refine (List.map_congr_left ?_).trans (List.map_id attrs)
  rintro ⟨name, v⟩ _
  cases v with
  | none => rfl
  | some v => exact congrArg (fun own => Catalog.Attribute.mk name (some own)) (each v)

/-- Attributes that are written from kept ones restate those that were kept. -/
theorem Attribute.restates_of_kept (kept_eq : kept = raw.map toCatalog)
    (same : again.map unplaced = (Canonical.attributesOf span kept).map unplaced) :
    Attribute.Restates raw again := by
  have catalogued := congrArg (List.map toCatalog) same
  rw [List.map_map, List.map_map] at catalogued
  have forget : toCatalog ∘ unplaced = toCatalog :=
    funext Attribute.toCatalog_unplaced
  rw [forget, Canonical.map_toCatalog_attributesOf, kept_eq] at catalogued
  exact catalogued

/-! ## Members -/

/-- What is written from kept elements corresponds to what they were kept from. -/
theorem forall₂_of_map_eq {view : γ → δ} {lefts : List α} {kept : List β} {rights : List γ}
    (all : List.Forall₂ keeps lefts kept) (same : rights.map view = kept.map spelled)
    (each : ∀ left own right, keeps left own → view right = spelled own → restates left right) :
    List.Forall₂ restates lefts rights := by
  induction all generalizing rights with
  | nil => simp_all
  | cons hd _ ih =>
    rcases List.map_eq_cons_iff.mp same with ⟨right, rest, rfl, fst, snd⟩
    exact .cons (each _ _ _ hd fst) (ih snd)

namespace Catalog

section

variable {ctx : Check.Context} {c : Catalog} (keeps : Keeps ctx c)
variable (global : c.Global)
include keeps global

theorem Keeps.restatedStructField (kept : Check.KeepsStructField ctx [] raw own)
    (same : again.unplaced = (Canonical.spelledStructField c [] span own).unplaced) :
    Check.RestatedStructField raw again where
  name_eq := (congrArg Field.name same).trans kept.name_eq
  doc_eq := (congrArg Field.doc same).trans kept.doc_eq
  type_eq := (congrArg Field.type same).trans (keeps.unplaced_spelledType global span kept.denotes)
  attributes := Attribute.restates_of_kept kept.attributes_eq (congrArg Field.attributes same)
  default_eq := Option.map_eq_none_iff.mp (congrArg Field.default same)

theorem Keeps.restatedTableField (kept : Check.KeepsField ctx enums [] raw own)
    (same : again.unplaced = (Canonical.spelledTableField c [] span own).unplaced) :
    Check.RestatedTableField ctx enums [] raw again where
  name_eq := (congrArg Field.name same).trans kept.name_eq
  doc_eq := (congrArg Field.doc same).trans kept.doc_eq
  type_eq := (congrArg Field.type same).trans (keeps.unplaced_spelledType global span kept.denotes)
  attributes := Attribute.restates_of_kept kept.attributes_eq (congrArg Field.attributes same)
  default_eq := by
    intro ty means
    refine ⟨own.default, ?_, ?_⟩
    · rw [means.unique kept.denotes]
      exact kept.default_eq
    · have vs := congrArg (Option.map Literal.value) (congrArg Field.default same)
      simp only [Field.unplaced, Canonical.spelledTableField, Option.map_map] at vs
      exact vs.trans (Option.map_id_apply)

theorem Keeps.restatedVariant (kept : Check.KeepsVariant ctx [] raw own)
    (same : again.unplaced = (Canonical.spelledVariant c [] span own).unplaced) :
    Check.RestatedVariant raw again where
  typeName_eq :=
    (congrArg FlatSchema.Variant.typeName same).trans
      (keeps.spelling_of_resolve global kept.resolved)
  doc_eq := (congrArg FlatSchema.Variant.doc same).trans kept.doc_eq

theorem Keeps.restatedMethod (kept : Check.KeepsMethod ctx [] raw own)
    (same : again.unplaced = (Canonical.spelledMethod c [] span own).unplaced) :
    Check.RestatedMethod raw again where
  name_eq := (congrArg FlatSchema.Method.name same).trans kept.name_eq
  request_eq :=
    (congrArg FlatSchema.Method.requestType same).trans
      (keeps.spelling_of_resolve global kept.request)
  response_eq :=
    (congrArg FlatSchema.Method.responseType same).trans
      (keeps.spelling_of_resolve global kept.response)
  doc_eq := (congrArg FlatSchema.Method.doc same).trans kept.doc_eq
  attributes :=
    Attribute.restates_of_kept kept.attributes_eq (congrArg FlatSchema.Method.attributes same)

/-! ## Declarations -/

theorem Keeps.restatedBody (mem : sym ∈ ctx.symbols.entries) (ns : sym.decl.scope = [])
    (kept : Check.KeepsBody ctx sym sym.decl.body body)
    (same : again.unplaced = (spelledBody c [] span body).unplaced) :
    Check.RestatedBody ctx sym sym.decl.body again := by
  generalize written_eq : sym.decl.body = raw at kept ⊢
  cases kept with
  | @enum base vs ty hit kept =>
    cases again with
    | enum base' vs' =>
      injection same with underlying_eq values_eq
      rw [List.map_map] at values_eq
      rw [Check.enumTypes_value, Check.lookup_byNumber keeps.regular mem, Check.enumOf,
        written_eq] at hit
      have self : List.Forall₂ (· = ·) ty.values ty.values := List.forall₂_refl _
      refine .enum hit underlying_eq (forall₂_of_map_eq self values_eq ?_)
      rintro own _ v rfl alike
      exact ⟨congrArg FlatSchema.EnumValue.name alike,
        congrArg FlatSchema.EnumValue.doc alike, congrArg FlatSchema.EnumValue.value alike⟩
    | union | struct | table | service => cases same
  | union kept =>
    cases again with
    | union variantsAgain =>
      injection same with variants_eq
      rw [List.map_map] at variants_eq
      rw [ns] at kept
      refine .union (forall₂_of_map_eq kept variants_eq ?_)
      exact fun _ _ _ keptVariant alike => keeps.restatedVariant global keptVariant alike
    | enum | struct | table | service => cases same
  | struct kept =>
    cases again with
    | struct fs' =>
      injection same with fields_eq
      rw [List.map_map] at fields_eq
      have keptFields := kept.kept
      rw [ns] at keptFields
      refine .struct (forall₂_of_map_eq keptFields fields_eq ?_)
      exact fun _ _ _ keptField alike => keeps.restatedStructField global keptField alike
    | enum | union | table | service => cases same
  | table kept =>
    cases again with
    | table fs' =>
      injection same with fields_eq
      have keptFields := kept.kept
      refine .table ?_
      grind [forall₂_of_map_eq, restatedTableField]
    | enum | union | struct | service => cases same
  | service kept =>
    cases again with
    | service methods' =>
      injection same with methods_eq
      rw [List.map_map] at methods_eq
      rw [ns] at kept
      refine .service (forall₂_of_map_eq kept methods_eq ?_)
      exact fun _ _ _ keptMethod alike => keeps.restatedMethod global keptMethod alike
    | enum | union | struct | table => cases same

theorem Keeps.restatedSymbol (mem : sym ∈ ctx.symbols.entries)
    (listed : e ∈ c.entries) (kept : Check.KeepsEntry ctx sym e)
    (id_eq : again.id = sym.id) (fullName_eq : again.fullName = sym.fullName)
    (same : again.decl.unplaced = (spelledDecl c e).unplaced) :
    Check.RestatedSymbol ctx sym again := by
  have entryScope := global e listed
  rcases kept with ⟨body, rfl, keptBody⟩
  have ns : sym.decl.scope = [] := entryScope
  have head := congrArg (fun decl : Decl => (decl.name, decl.scope, decl.doc)) same
  simp only [Decl.unplaced, spelledDecl, Check.entryOf, Prod.mk.injEq] at head
  rcases head with ⟨name_eq, scope_eq, doc_eq⟩
  have body_eq :
      again.decl.body.unplaced = (spelledBody c sym.decl.scope sym.decl.span body).unplaced :=
    congrArg Decl.body same
  rw [ns] at body_eq
  exact ⟨⟨id_eq, fullName_eq, name_eq, scope_eq, doc_eq,
    Attribute.restates_of_kept rfl (congrArg Decl.attributes same)⟩,
    keeps.restatedBody global mem ns keptBody body_eq⟩

theorem Keeps.printable_spelledType (legible : ∀ sym ∈ ctx.symbols.entries, sym.decl.Legible)
    (listed : e ∈ c.entries) (held : ty ∈ e.body.memberTypes) :
    (spelledType c e.scope e.span ty).Printable := by
  rcases exists_mem_of_forall₂ keeps.entries listed with ⟨sym, mem, body, rfl, kept⟩
  have ns : sym.decl.scope = [] := global _ listed
  have prints := (legible sym mem).printable.body
  have raw : ∃ own : TypeExpr, own.Printable ∧ Check.Denotes ctx.symbols [] own ty := by
    generalize sym.decl.body = declared at kept prints
    cases kept with
    | struct kept =>
      rcases List.mem_map.mp held with ⟨f, fits, rfl⟩
      rcases exists_mem_of_forall₂ kept.kept fits with ⟨own, read, keptField⟩
      have means := keptField.denotes
      rw [ns] at means
      exact ⟨own.type, (prints own read).type, means⟩
    | table kept =>
      rcases List.mem_map.mp held with ⟨f, fits, rfl⟩
      rcases exists_mem_of_forall₂ kept.kept fits with ⟨own, read, keptField⟩
      have means := keptField.denotes
      rw [ns] at means
      exact ⟨own.type, (prints own read).type, means⟩
    | enum | union | service => cases held
  change (spelledType c sym.decl.scope sym.decl.span ty).Printable
  grind [TypeExpr.printable_of_unplaced, unplaced_spelledType, TypeExpr.printable_unplaced]

end

end Catalog

end FlatSchema
