import FlatSchema.Proofs.CheckedTables
import FlatSchema.Proofs.Containment
import FlatSchema.Proofs.LayoutSearch

/-!
# Checked structs

Structs are resolved one by one and laid out together.  If neither step nor
the search for cycles reports an error, every struct has a layout: the order
in which structs contain one another lets the layouts be found one after
another, and each field is stored as its type asks.
-/

namespace FlatSchema

open StructLayout Report

variable {ctx : Context} {sym : Symbol} {fs : List Field} {t : SymbolTable}
  {enums : EnumTypes} {draft : StructDraft}

namespace SymbolTable

/-- The numbers of a regular table count its entries. -/
theorem Regular.ids_eq (reg : t.Regular) :
    t.entries.map Symbol.id = List.range t.entries.length := by
  apply List.ext_getElem
  · simp
  · intro place fits _
    rw [List.length_map] at fits
    rw [List.getElem_map, List.getElem_range]
    exact reg.id_eq (List.getElem?_eq_getElem fits)

theorem Regular.nodup_ids (reg : t.Regular) : (t.entries.map Symbol.id).Nodup := by
  rw [reg.ids_eq]
  exact List.nodup_range

/-- An entry stands at the place of its number. -/
theorem Regular.getElem?_of_mem (reg : t.Regular) (mem : sym ∈ t.entries) :
    t.entries[sym.id]? = some sym := by
  grind [id_eq, List.getElem?_of_mem]

end SymbolTable

namespace Check

/-! ## Results by number -/

variable {α : Type}

/-- What a pass over the symbols gives for some of them, each under its number. -/
def byNumber (step : Symbol → Option α) (symbols : List Symbol) : List (Nat × α) :=
  symbols.filterMap fun sym => (step sym).map fun v => (sym.id, v)

theorem byNumber_keys_sublist (step : Symbol → Option α) (symbols : List Symbol) :
    ((byNumber step symbols).map Prod.fst).Sublist (symbols.map Symbol.id) := by
  induction symbols with
  | nil => exact List.Sublist.refl _
  | cons hd rest ih =>
    rw [byNumber, List.filterMap_cons]
    cases step hd with
    | none => exact ih.cons _
    | some v => exact ih.cons_cons _

/-- A symbol is found under its number with the result of its step. -/
theorem lookup_byNumber (reg : t.Regular) {step : Symbol → Option α}
    (mem : sym ∈ t.entries) : (byNumber step t.entries).lookup sym.id = step sym := by
  have nodup := reg.nodup_ids.sublist (byNumber_keys_sublist step t.entries)
  cases res : step sym with
  | some v =>
    grind [lookup_of_mem, byNumber, List.mem_filterMap]
  | none =>
    rw [List.lookup_eq_none_iff]
    intro e fits
    apply bne_iff_ne.mpr
    intro equal
    rw [byNumber, List.mem_filterMap] at fits
    rcases fits with ⟨other, otherMember, otherResult⟩
    rcases Option.map_eq_some_iff.mp otherResult with ⟨v, hit, rfl⟩
    -- Two entries of one number are one entry.
    have same : some other = some sym := by
      rw [← reg.getElem?_of_mem otherMember, ← reg.getElem?_of_mem mem, equal]
    cases same
    rw [res] at hit
    cases hit

theorem exists_of_lookup_byNumber (reg : t.Regular)
    {id : Nat} {v : α} (hit : (byNumber step t.entries).lookup id = some v) :
    ∃ sym, t.entries[id]? = some sym ∧ step sym = some v := by
  have mem := mem_of_lookup hit
  rw [byNumber, List.mem_filterMap] at mem
  rcases mem with ⟨sym, fits, res⟩
  rcases Option.map_eq_some_iff.mp res with ⟨other, stepped, equal⟩
  cases equal
  exact ⟨sym, reg.getElem?_of_mem fits, stepped⟩

/-! ## Enumerations by number -/

/-- The enumeration that a symbol declares, if it is accepted. -/
def enumOf (ctx : Context) (sym : Symbol) : Option Catalog.EnumType :=
  match sym.decl.body with
  | .enum base vs => (enumType ctx sym base vs).value
  | _ => none

theorem enumTypes_value (ctx : Context) :
    (enumTypes ctx).value = byNumber (enumOf ctx) ctx.symbols.entries := by
  unfold enumTypes
  simp only [value_bind, value_forEach, value_pure, List.filterMap_map]
  congr 1
  funext sym
  simp only [Function.comp_apply, id_eq, enumOf]
  cases sym.decl.body <;> rfl

/-- Only enumerations are found among them. -/
theorem isEnum_of_lookup (reg : ctx.symbols.Regular) {id : Nat}
    (hit : (enumTypes ctx).value.lookup id = some enum) : ctx.symbols.kind? id = some .enum := by
  rw [enumTypes_value] at hit
  rcases exists_of_lookup_byNumber reg hit with ⟨sym, stands, ok⟩
  rw [SymbolTable.kind?_eq_some_iff]
  refine ⟨sym, stands, ?_⟩
  unfold enumOf at ok
  split at ok
  · next equal => rw [Decl.kind, equal]; rfl
  · cases ok

/-- Without an error every enumeration is accepted. -/
theorem allAccepted_of_clean (reg : ctx.symbols.Regular) (clean : (enumTypes ctx).Clean) :
    AllAccepted ctx (enumTypes ctx).value := by
  intro id isEnum
  rcases SymbolTable.kind?_eq_some_iff.mp isEnum with ⟨sym, stands, kind⟩
  have mem := List.mem_of_getElem? stands
  simp only [enumTypes, clean_bind, clean_forEach, clean_pure, and_true]
    at clean
  rw [enumTypes_value, ← reg.id_eq stands, lookup_byNumber reg mem, enumOf]
  cases body : sym.decl.body with
  | enum base vs =>
    grind [enumType_of_clean, clean_bind]
  | _ => simp [Decl.kind, body, DeclBody.kind] at kind

/-! ## Drafts -/

/-- The type of a struct field that is checked without an error stands in place. -/
theorem structFieldType_of_clean (clean : (structFieldType ctx sym f).Clean) :
    ∃ ty,
      (structFieldType ctx sym f).value = some ty ∧ Denotes ctx.symbols sym.decl.scope f.type ty ∧
        isInline ctx ty = true := by
  unfold structFieldType at clean ⊢
  simp only [clean_bind, value_bind] at clean ⊢
  rcases clean with ⟨_, _, _, typeClean, clean⟩
  rcases Context.denotes_of_clean typeClean with ⟨ty, v, means⟩
  rw [v] at clean ⊢
  simp only at clean ⊢
  split at clean
  · simp_all
  · simp at clean

/-- An alignment that a struct may ask for is one of the format. -/
theorem isAlignment_of_forceAlign (asked : align ∈ (forceAlign sym).value) :
    IsAlignment align := by
  unfold forceAlign at asked
  split at asked
  · cases asked
  · split at asked
    · next raw _ given _ hit =>
        cases asked
        unfold forcedAlignment? at hit
        split at hit
        · next v _ =>
            split at hit
            · next power =>
                cases hit
                simp only [Bool.or_eq_true, decide_eq_true_eq] at power
                rcases power with (((rfl | rfl) | rfl) | rfl) | rfl
                · exact ⟨0, by omega, rfl⟩
                · exact ⟨1, by omega, rfl⟩
                · exact ⟨2, by omega, rfl⟩
                · exact ⟨3, by omega, rfl⟩
                · exact ⟨4, by omega, rfl⟩
            · cases hit
        · cases hit
    · cases asked

/-- What a draft holds of a struct that is checked without an error. -/
structure Drafted (ctx : Context) (enums : EnumTypes) (sym : Symbol) (raw : List Field)
    (types : List FieldType) (draft : StructDraft) : Prop where
  fields_eq : draft.fields = raw
  types_eq : draft.types = types.map some
  shapes_eq : draft.shape.fields = types.map fun ty => shapeOf ctx enums (some ty)
  forced : ∀ align ∈ draft.shape.forced, IsAlignment align
  inline :
    List.Forall₂ (fun f ty => Denotes ctx.symbols sym.decl.scope f.type ty ∧ isInline ctx ty = true)
      raw types
  nodup_names : (raw.map Field.name).Nodup
  nonempty : raw ≠ []

theorem structDraft_of_clean (clean : (structDraft ctx enums sym fs).Clean) :
    ∃ types, Drafted ctx enums sym fs types (structDraft ctx enums sym fs).value := by
  unfold structDraft at clean ⊢
  simp only [clean_bind, value_bind, clean_found] at clean ⊢
  rcases clean with ⟨_, namesClean, clean⟩
  split at clean
  · simp at clean
  · next nonempty =>
      rw [if_neg nonempty]
      simp only [clean_bind, value_bind, clean_forEach,
        value_forEach, value_pure] at clean ⊢
      rcases clean with ⟨typesClean, _⟩
      rcases exists_forall₂ fun f mem =>
          structFieldType_of_clean (typesClean f mem) with ⟨types, all⟩
      have typesEqual : (fs.map fun f => (structFieldType ctx sym f).value) = types.map some := by
        refine (map_eq_of_forall₂ all ?_).symm
        grind
      refine ⟨types, rfl, typesEqual, ?_, ?_, ?_, ?_, ?_⟩
      · simp_all
      · intro align asked
        exact isAlignment_of_forceAlign asked
      · exact all.imp fun _ _ related => related.2
      · exact (nodup_of_repeatedFields namesClean).1
      · simpa using nonempty

/-- The draft of a symbol, if it declares a struct. -/
def draftOf (ctx : Context) (enums : EnumTypes) (sym : Symbol) : Option StructDraft :=
  match sym.decl.body with
  | .struct fs => some (structDraft ctx enums sym fs).value
  | _ => none

theorem symbol_structDraft (ctx : Context) (enums : EnumTypes) (sym : Symbol) (fs : List Field) :
    (structDraft ctx enums sym fs).value.symbol = sym := by
  unfold structDraft
  split <;> rfl

theorem symbol_of_draftOf (drafted : draftOf ctx enums sym = some draft) : draft.symbol = sym := by
  grind [symbol_structDraft, draftOf]

section

variable (ctx : Context) (enums : EnumTypes)

theorem structDrafts_value :
    (structDrafts ctx enums).value = ctx.symbols.entries.filterMap (draftOf ctx enums) := by
  unfold structDrafts
  simp only [value_bind, value_forEach, value_pure, List.filterMap_map]
  congr 1
  funext sym
  simp only [Function.comp_apply, id_eq, draftOf]
  cases sym.decl.body <;> rfl

/-! ## Structs by number -/

/-- The shapes of the structs among the symbols. -/
def shapesOf : List (Nat × StructShape Nat Nat) :=
  byNumber (fun sym => (draftOf ctx enums sym).map StructDraft.shape)
    ctx.symbols.entries

/-- The layouts of the structs among the symbols. -/
def layoutsOf : List (Nat × StructLayout Nat) :=
  ofShapes (shapesOf ctx enums)

/-- A draft with the places of a layout. -/
def StructDraft.place (draft : StructDraft) (layout : StructLayout Nat) : Catalog.StructType :=
  ⟨placedFields draft.fields draft.types layout.fields, layout.size, layout.alignment⟩

/-- The struct that a symbol declares, if it can be laid out. -/
def structOf (sym : Symbol) : Option Catalog.StructType :=
  (draftOf ctx enums sym).bind fun draft =>
    ((layoutsOf ctx enums).lookup sym.id).map draft.place

/-- Without cycles the structs are found by number. -/
theorem structTypes_value :
    structTypes (structDrafts ctx enums).value [] =
      byNumber (structOf ctx enums) ctx.symbols.entries := by
  have shapes :
      ((structDrafts ctx enums).value.map fun draft => (draft.symbol.id, draft.shape)) =
        shapesOf ctx enums := by
    rw [structDrafts_value, shapesOf, byNumber]
    grind [symbol_of_draftOf, draftOf]
  unfold structTypes
  simp only [shapes, List.contains_nil, Bool.false_eq_true, if_false]
  rw [structDrafts_value, List.filterMap_filterMap]
  congr 1
  funext sym
  unfold structOf
  cases drafted : draftOf ctx enums sym with
  | none => rfl
  | some draft =>
    rw [Option.bind_some, Option.bind_some, Option.map_map, symbol_of_draftOf drafted]
    rfl

end

/-- The draft of a struct that is checked without an error. -/
theorem drafted_of_clean (clean : (structDrafts ctx enums).Clean)
    (mem : sym ∈ ctx.symbols.entries) (body : sym.decl.body = .struct fs) :
    ∃ types draft, draftOf ctx enums sym = some draft ∧ Drafted ctx enums sym fs types draft := by
  simp only [structDrafts, clean_bind, clean_forEach, clean_pure, and_true]
    at clean
  grind [structDraft_of_clean, draftOf, clean_bind]

/-- A field that holds a struct makes its owner contain that struct. -/
theorem mem_contained (stands : symbols.entries[owner]? = some sym)
    (body : sym.decl.body = .struct fs) (mem : f ∈ fs) {id : Nat}
    (means : Denotes symbols sym.decl.scope f.type (.named id))
    (isStruct : symbols.kind? id = some .struct) : id ∈ symbols.contained owner := by
  rw [SymbolTable.contained, stands]
  simp only [SymbolTable.heldStructs, body]
  rw [List.mem_filterMap]
  refine ⟨f, mem, ?_⟩
  cases raw : f.type with
  | named name span =>
    rw [raw] at means
    cases means with
    | named _ resolved =>
      simp [SymbolTable.heldStruct?, raw, TypeExpr.plainName?, resolved, isStruct]
  | scalar | string | vector =>
    rw [raw] at means
    cases means

/-- A struct of which the layout is known and aligned. -/
def HasLayout (layouts : List (Nat × StructLayout Nat)) (id : Nat) : Prop :=
  ∃ layout, layouts.lookup id = some layout ∧ IsAlignment layout.alignment

/-- A type that stands in place has a storage once the struct it names has a layout. -/
theorem exists_storage (reg : ctx.symbols.Regular) (ok : AllAccepted ctx (enumTypes ctx).value)
    (inline : isInline ctx ty = true)
    (known : ∀ id, ty = .named id → ctx.symbols.kind? id = some .struct → HasLayout layouts id) :
    ∃ cell,
      storage? (layouts.lookup ·) (shapeOf ctx (enumTypes ctx).value (some ty)) =
          some cell ∧
        IsAlignment cell.alignment := by
  cases ty with
  | scalar kind =>
    exact ⟨kind.storage, rfl, isAlignment_scalarSize kind⟩
  | string => simp [isInline, Context.isNamed] at inline
  | vector elem => simp [isInline, Context.isNamed] at inline
  | named id =>
    simp only [isInline, Context.isNamed, Bool.or_eq_true, decide_eq_true_eq] at inline
    rcases inline with isStruct | isEnum
    · have noEnum : (enumTypes ctx).value.lookup id = none := by
        cases hit : (enumTypes ctx).value.lookup id with
        | none => rfl
        | some enum =>
          grind [isEnum_of_lookup]
      rcases known id rfl isStruct with ⟨layout, hit, aligned⟩
      refine ⟨layout.storage, ?_, aligned⟩
      simp [shapeOf, noEnum, isStruct, storage?, hit]
    · rcases ok id isEnum with ⟨enum, hit⟩
      refine ⟨enum.underlying.storage, ?_, isAlignment_scalarSize _⟩
      simp [shapeOf, hit, storage?]

/-- The shapes of the structs have numbers of their own. -/
theorem nodup_shapesOf (reg : ctx.symbols.Regular) (enums : EnumTypes) :
    ((shapesOf ctx enums).map Prod.fst).Nodup :=
  reg.nodup_ids.sublist (byNumber_keys_sublist _ _)

theorem lookup_layoutsOf (reg : ctx.symbols.Regular) (mem : sym ∈ ctx.symbols.entries)
    (drafted : draftOf ctx enums sym = some draft)
    (stored : Rooms ((layoutsOf ctx enums).lookup ·) draft.shape.fields cells) :
    (layoutsOf ctx enums).lookup sym.id =
      some (ofFields cells draft.shape.forced) := by
  have ownShape : (shapesOf ctx enums).lookup sym.id = some draft.shape := by
    rw [shapesOf, lookup_byNumber reg mem, drafted]
    rfl
  exact lookup_ofShapes_of_rooms (nodup_shapesOf reg enums) ownShape stored

theorem exists_storages (reg : ctx.symbols.Regular) (ok : AllAccepted ctx (enumTypes ctx).value)
    (listed : sym ∈ ctx.symbols.entries) (body : sym.decl.body = .struct fs)
    (holds : Drafted ctx (enumTypes ctx).value sym fs types draft)
    (known : ∀ id ∈ ctx.symbols.contained sym.id, HasLayout layouts id) :
    ∃ cells,
      Rooms (layouts.lookup ·) draft.shape.fields cells ∧
        ∀ cell ∈ cells, IsAlignment cell.alignment := by
  have each :
      ∀ ty ∈ types, ∃ cell,
        storage? (layouts.lookup ·) (shapeOf ctx (enumTypes ctx).value (some ty)) = some cell ∧
          IsAlignment cell.alignment := by
    intro ty mem
    rcases exists_mem_of_forall₂ holds.inline mem with ⟨f, written, means, inline⟩
    refine exists_storage reg ok inline ?_
    rintro id rfl isStruct
    exact known id (mem_contained (reg.getElem?_of_mem listed) body written means isStruct)
  rcases exists_forall₂ each with ⟨cells, all⟩
  refine ⟨cells, ?_, ?_⟩
  · rw [holds.shapes_eq, Rooms, List.forall₂_map_left_iff]
    exact all.imp fun _ _ related => related.1
  · intro cell mem
    rcases exists_mem_of_forall₂ all mem with ⟨_, _, _, aligned⟩
    exact aligned

theorem body_of_isStruct {symbols : SymbolTable} {id : Nat} (isStruct : symbols.IsStruct id) :
    ∃ sym fs, symbols.entries[id]? = some sym ∧ sym.decl.body = .struct fs := by
  rcases SymbolTable.kind?_eq_some_iff.mp isStruct with ⟨sym, stands, kind⟩
  cases body : sym.decl.body with
  | struct fs => exact ⟨sym, fs, stands, body⟩
  | _ => simp [Decl.kind, body, DeclBody.kind] at kind

theorem hasLayout_of_ordered (reg : ctx.symbols.Regular)
    (ok : AllAccepted ctx (enumTypes ctx).value)
    (clean : (structDrafts ctx (enumTypes ctx).value).Clean) {order : List Nat}
    (ordered : ctx.symbols.Ordered order) :
    ∀ id ∈ order, ctx.symbols.IsStruct id → HasLayout (layoutsOf ctx (enumTypes ctx).value) id := by
  induction ordered with
  | nil =>
    intro id mem
    cases mem
  | @snoc pre last _ held ih =>
    intro id mem isStruct
    rcases List.mem_append.mp mem with old | new
    · exact ih id old isStruct
    · rw [List.mem_singleton] at new
      rcases body_of_isStruct isStruct with ⟨sym, fs, stands, body⟩
      have fits := List.mem_of_getElem? stands
      rcases drafted_of_clean clean fits body with ⟨types, draft, drafted, holds⟩
      have contained :
          ∀ next ∈ ctx.symbols.contained sym.id,
            HasLayout (layoutsOf ctx (enumTypes ctx).value) next := by
        grind [SymbolTable.Regular.id_eq, SymbolTable.isStruct_of_mem_contained]
      rcases exists_storages reg ok fits body holds contained with
        ⟨cells, stored, aligned⟩
      refine ⟨_, ?_, (sound_ofFields aligned holds.forced).isAlignment⟩
      rw [← reg.id_eq stands]
      exact lookup_layoutsOf reg fits drafted stored

/-! ## Accepted structs -/

/-- The field that was kept for a written one. -/
structure KeepsStructField (ctx : Context) (ns : List String) (raw : Field)
    (kept : Catalog.StructField) : Prop where
  name_eq : kept.name = raw.name
  doc_eq : kept.doc = raw.doc
  attributes_eq : kept.attributes = raw.attributes.map Attribute.toCatalog
  denotes : Denotes ctx.symbols ns raw.type kept.type
  inline : isInline ctx kept.type = true

/-- The place of a struct field. -/
def placementOf (f : Catalog.StructField) : Placement Nat :=
  ⟨f.offset, f.size, f.padding⟩

/-- The layout that a struct was given. -/
def layoutOf (struct : Catalog.StructType) : StructLayout Nat :=
  ⟨struct.fields.map placementOf, struct.size, struct.alignment⟩

/-- What a checked struct keeps of the written one, and how its fields are laid out. -/
structure KeepsStruct (ctx : Context) (enums : EnumTypes) (sym : Symbol) (raw : List Field)
    (struct : Catalog.StructType) : Prop where
  kept : List.Forall₂ (KeepsStructField ctx sym.decl.scope) raw struct.fields
  nodup_names : (raw.map Field.name).Nodup
  nonempty : raw ≠ []
  laidOut : (layoutsOf ctx enums).lookup sym.id = some (layoutOf struct)
  stored :
    ∃ cells,
      List.Forall₂
          (fun f cell =>
            storage? ((layoutsOf ctx enums).lookup ·)
              (shapeOf ctx enums (some f.type)) = some cell) struct.fields cells ∧
        Sound cells (layoutOf struct)

theorem keeps_placedFields (inline :
      List.Forall₂ (fun f ty => Denotes ctx.symbols ns f.type ty ∧ isInline ctx ty = true)
        fs types) (placed : types.length = places.length) :
    List.Forall₂ (KeepsStructField ctx ns) fs (placedFields fs (types.map some) places) ∧
      (placedFields fs (types.map some) places).map Catalog.StructField.type = types ∧
      (placedFields fs (types.map some) places).map placementOf = places := by
  induction inline generalizing places with
  | nil =>
    cases places with
    | nil => exact ⟨.nil, rfl, rfl⟩
    | cons place places => cases placed
  | @cons f ty fs types hd _ ih =>
    cases places with
    | nil => cases placed
    | cons place places =>
      rcases ih (Nat.succ.inj placed) with ⟨kept, kinds, spots⟩
      simp only [List.map_cons, placedFields, kinds, spots]
      exact ⟨.cons ⟨rfl, rfl, rfl, hd.1, hd.2⟩ kept, rfl, rfl⟩

/-- Without an error every struct is laid out, with all the fields that are written. -/
theorem structOf_of_clean (reg : ctx.symbols.Regular) (ok : AllAccepted ctx (enumTypes ctx).value)
    (cycleFree : ctx.symbols.structCycles.Clean)
    (clean : (structDrafts ctx (enumTypes ctx).value).Clean)
    (mem : sym ∈ ctx.symbols.entries) (body : sym.decl.body = .struct fs) :
    ∃ struct,
      structOf ctx (enumTypes ctx).value sym = some struct ∧
        KeepsStruct ctx (enumTypes ctx).value sym fs struct := by
  rcases reg.exists_ordered cycleFree with ⟨_, order, ordered, _, covers⟩
  rcases drafted_of_clean clean mem body with ⟨types, draft, drafted, holds⟩
  have contained :
      ∀ next ∈ ctx.symbols.contained sym.id,
        HasLayout (layoutsOf ctx (enumTypes ctx).value) next := by
    grind [SymbolTable.isStruct_of_mem_contained, hasLayout_of_ordered]
  rcases exists_storages reg ok mem body holds contained with
    ⟨cells, stored, aligned⟩
  have hit := lookup_layoutsOf reg mem drafted stored
  have sound := sound_ofFields aligned holds.forced
  rw [holds.shapes_eq, Rooms, List.forall₂_map_left_iff] at stored
  have placed : types.length = (ofFields cells draft.shape.forced).fields.length := by
    rw [stored.length_eq, sound.holds.length_eq]
  rcases keeps_placedFields holds.inline placed with ⟨kept, kinds, spots⟩
  refine ⟨draft.place (ofFields cells draft.shape.forced), ?_, ?_⟩
  · rw [structOf, drafted, Option.bind_some, hit, Option.map_some]
  · rw [StructDraft.place, holds.fields_eq, holds.types_eq]
    have layout :
        layoutOf
            ⟨placedFields fs (types.map some)
                (ofFields cells draft.shape.forced).fields,
              (ofFields cells draft.shape.forced).size,
              (ofFields cells draft.shape.forced).alignment⟩ =
          ofFields cells draft.shape.forced := by
      rw [layoutOf, spots]
    refine ⟨kept, holds.nodup_names, holds.nonempty, ?_, cells, ?_, ?_⟩
    · rw [layout]
      exact hit
    · rw [← kinds, List.forall₂_map_left_iff] at stored
      exact stored
    · rw [layout]
      exact sound

end Check

end FlatSchema
