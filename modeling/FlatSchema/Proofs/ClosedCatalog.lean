import FlatSchema.Catalog.WriteOrder
import FlatSchema.Proofs.Completeness
import FlatSchema.Proofs.Lookup
import FlatSchema.Proofs.SoundCatalog
import Mathlib.Logic.Relation

/-!
# Closed catalogs

An accepted catalog is closed: every number in it is the number of an entry,
and of an entry of a kind that can stand there.  Struct fields stand in place,
vectors hold neither vectors nor unions nor services, the variants of a union
and the messages of a method are tables, and so is the root type.  Readers,
writers and generators meet no reference that they cannot follow.
-/

namespace FlatSchema

variable {c : Catalog} {schemas : List Schema} {old : List Diagnostic} {ctx : Context}

namespace Catalog

/-- The kind of a numbered entry. -/
def kind? (c : Catalog) (id : Nat) : Option DeclKind :=
  (c.body? id).map Body.kind

/-- The types whose values stand in place. -/
inductive IsInline (c : Catalog) : FieldType → Prop where
  | scalar (kind : ScalarKind) : IsInline c (.scalar kind)
  | enum {id : Nat} (isEnum : c.kind? id = some .enum) : IsInline c (.named id)
  | struct {id : Nat} (isStruct : c.kind? id = some .struct) : IsInline c (.named id)

/-- The types that the elements of a vector can have. -/
inductive IsElement (c : Catalog) : FieldType → Prop where
  | inline {ty : FieldType} (isInline : IsInline c ty) : IsElement c ty
  | string : IsElement c .string
  | table {id : Nat} (isTable : c.kind? id = some .table) : IsElement c (.named id)

/-- A type that is a union. -/
def IsUnion (c : Catalog) (ty : FieldType) : Prop :=
  ∃ id, ty = .named id ∧ c.kind? id = some .union

/-- The types that the fields of a table can have. -/
inductive IsMember (c : Catalog) : FieldType → Prop where
  | element {ty : FieldType} (isElement : IsElement c ty) : IsMember c ty
  | vector {element : FieldType} (isElement : IsElement c element) : IsMember c (.vector element)
  | union {ty : FieldType} (isUnion : IsUnion c ty) : IsMember c ty

/-- A struct holds another in place. -/
def Contains (c : Catalog) (outer inner : Nat) : Prop :=
  ∃ struct f,
    c.body? outer = some (.struct struct) ∧
      f ∈ struct.fields ∧
      f.type = .named inner ∧
      c.kind? inner = some .struct

/-- A body whose members refer to entries that can stand where they are named. -/
inductive ClosedBody (c : Catalog) : Body → Prop where
  | enum (ty : EnumType) : ClosedBody c (.enum ty)
  | union {ty : UnionType} (isTable : ∀ alt ∈ ty.variants, c.kind? alt.table = some .table) :
      ClosedBody c (.union ty)
  | struct {ty : StructType} (isInline : ∀ f ∈ ty.fields, IsInline c f.type) :
      ClosedBody c (.struct ty)
  | table {ty : TableType} (isMember : ∀ f ∈ ty.fields, IsMember c f.type)
      (tagged : ∀ f ∈ ty.fields, f.typeSlot.isSome = true ↔ IsUnion c f.type) :
      ClosedBody c (.table ty)
  | service {ty : ServiceType}
      (isTable :
        ∀ method ∈ ty.methods,
          c.kind? method.request = some .table ∧ c.kind? method.response = some .table) :
      ClosedBody c (.service ty)

/-- A catalog without loose ends. -/
structure Closed (c : Catalog) : Prop where
  ids_eq : c.entries.map Entry.id = List.range c.entries.length
  listed : ∀ group ∈ c.modules, ∀ id ∈ group.ids, id < c.entries.length
  bodies : ∀ e ∈ c.entries, ClosedBody c e.body
  acyclic : ∀ id, ¬ Relation.TransGen c.Contains id id
  rootIsTable : ∀ id, c.rootType = some id → c.kind? id = some .table

/-- The entry of a number, with a body of the kind that the number has. -/
theorem entry?_of_kind? {id : Nat} (hit : c.kind? id = some kind) :
    ∃ e, c.entry? id = some e ∧ e.body.kind = kind := by
  rw [kind?, body?, Option.map_map, Option.map_eq_some_iff] at hit
  exact hit

theorem kind?_of_body? {id : Nat} (hit : c.body? id = some body) : c.kind? id = some body.kind := by
  rw [kind?, hit, Option.map_some]

section

variable {c : Catalog} {id : Nat} {ty : FieldType}

theorem exists_struct (isStruct : c.kind? id = some .struct) :
    ∃ e struct, c.entry? id = some e ∧ e.body = .struct struct := by
  rcases entry?_of_kind? isStruct with ⟨e, stands, kind⟩
  cases body : e.body with
  | struct struct => exact ⟨e, struct, stands, body⟩
  | _ => rw [body] at kind; cases kind

/-- The entry of an enumeration. -/
theorem exists_enum (isEnum : c.kind? id = some .enum) :
    ∃ e enum, c.entry? id = some e ∧ e.body = .enum enum := by
  rcases entry?_of_kind? isEnum with ⟨e, stands, kind⟩
  cases body : e.body with
  | enum enum => exact ⟨e, enum, stands, body⟩
  | _ => rw [body] at kind; cases kind

theorem exists_table (isTable : c.kind? id = some .table) :
    ∃ e t, c.entry? id = some e ∧ e.body = .table t := by
  rcases entry?_of_kind? isTable with ⟨e, stands, kind⟩
  cases body : e.body with
  | table t => exact ⟨e, t, stands, body⟩
  | _ => rw [body] at kind; cases kind

theorem exists_union (isUnion : c.kind? id = some .union) :
    ∃ e union, c.entry? id = some e ∧ e.body = .union union := by
  rcases entry?_of_kind? isUnion with ⟨e, stands, kind⟩
  cases body : e.body with
  | union union => exact ⟨e, union, stands, body⟩
  | _ => rw [body] at kind; cases kind

theorem body?_of_entry? (stands : c.entry? id = some e) (same : e.body = body) :
    c.body? id = some body := by
  rw [body?, stands, Option.map_some, same]

/-- A type that names an entry, if it names any. -/
def Known (c : Catalog) : FieldType → Prop
  | .named id => ∃ e, c.entry? id = some e
  | .vector elem => Known c elem
  | _ => True

theorem known_of_kind? (hit : c.kind? id = some kind) : c.Known (.named id) := by
  rcases entry?_of_kind? hit with ⟨e, stands, _⟩
  exact ⟨e, stands⟩

theorem IsInline.known (isInline : IsInline c ty) : c.Known ty := by
  cases isInline with
  | scalar kind => trivial
  | enum isEnum => exact known_of_kind? isEnum
  | struct isStruct => exact known_of_kind? isStruct

theorem IsElement.known (isElement : IsElement c ty) : c.Known ty := by
  cases isElement with
  | inline isInline => exact isInline.known
  | string => trivial
  | table isTable => exact known_of_kind? isTable

theorem IsMember.known (isMember : IsMember c ty) : c.Known ty := by
  cases isMember with
  | element isElement => exact isElement.known
  | @vector elem isElement =>
    have isKnown : c.Known elem := isElement.known
    exact isKnown
  | union isUnion =>
    rcases isUnion with ⟨id, rfl, isUnion⟩
    exact known_of_kind? isUnion

theorem Known.scalarOf_eq (known : c.Known ty) : c.scalarOf ty = .ok (c.scalar? ty) := by
  cases ty with
  | named id =>
    rcases known with ⟨e, stands⟩
    rw [scalarOf_eq_ok (scalarOf_named stands), scalarOf_named stands]
  | _ => rfl

theorem Known.exists_structOf (known : c.Known ty) : ∃ hit, c.structOf ty = .ok hit := by
  cases ty with
  | named id =>
    rcases known with ⟨e, stands⟩
    exact ⟨_, structOf_named stands⟩
  | _ => exact ⟨none, rfl⟩

theorem Known.no_error (known : c.Known ty) (err : RecordError) :
    c.scalarOf ty ≠ .error err ∧ c.structOf ty ≠ .error err := by
  grind [exists_structOf, scalarOf_eq]

/-- What stands in place is a scalar or a struct. -/
theorem IsInline.not_both (isInline : IsInline c ty) (notScalar : c.scalarOf ty = .ok none)
    (notStruct : c.structOf ty = .ok none) : False := by
  cases isInline with
  | scalar => cases notScalar
  | enum hit =>
    grind [exists_enum, scalarOf_named]
  | struct hit =>
    grind [exists_struct, structOf_named]

/-- Elements that do not stand in place are tables, unless they are strings. -/
theorem IsElement.exists_table (isElement : IsElement c (.named id))
    (notScalar : c.scalarOf (.named id) = .ok none)
    (notStruct : c.structOf (.named id) = .ok none) : ∃ t, c.body? id = some (.table t) := by
  cases isElement with
  | inline isInline => exact (isInline.not_both notScalar notStruct).elim
  | table hit =>
    grind [Catalog.exists_table, body?_of_entry?]

/-- No field of a table is a service. -/
theorem IsMember.not_service (isMember : IsMember c (.named id)) : c.kind? id ≠ some .service := by
  intro isService
  cases isMember with
  | element isElement =>
    cases isElement with
    | inline isInline =>
      cases isInline with
      | enum isEnum => cases isEnum.symm.trans isService
      | struct isStruct => cases isStruct.symm.trans isService
    | table isTable => cases isTable.symm.trans isService
  | union isUnion =>
    grind [kind?, IsUnion]

theorem Closed.body (closed : Closed c) {body : Body} (hit : c.body? id = some body) :
    ClosedBody c body := by
  rw [body?] at hit
  grind [bodies, List.mem_of_getElem?, entry?]

end

/-! ## The order of writing -/

theorem map_slot_writes (c : Catalog) (fld : TableField) :
    (fld.writes c).map SlotWrite.slot =
      if fld.deprecated then [] else fld.slots := by
  grind [TableField.writes, TableField.slots]

/-- Each field that is not deprecated writes its slots, and nothing else is written. -/
theorem mem_writeOrder {t : TableType} :
    write ∈ t.writeOrder c ↔ ∃ fld ∈ t.fields, write ∈ fld.writes c := by
  rw [TableType.writeOrder, List.mem_mergeSort, List.mem_flatMap]

/-- What is written belongs to a field that is not deprecated. -/
theorem field_of_mem_writeOrder {t : TableType} (mem : write ∈ t.writeOrder c) :
    write.field ∈ t.fields ∧ write.field.deprecated = false ∧ write.slot ∈ write.field.slots := by
  rcases mem_writeOrder.mp mem with ⟨fld, own, raw⟩
  have listed := List.mem_map_of_mem (f := SlotWrite.slot) raw
  rw [map_slot_writes] at listed
  rw [TableField.writes] at raw
  cases live : fld.deprecated with
  | true =>
    rw [live] at raw
    cases raw
  | false =>
    grind

/-! ## Accepted catalogs are closed -/

section

variable {ty : FieldType}

variable {ctx : Check.Context} {c : Catalog} (keeps : Keeps ctx c)
include keeps

theorem Keeps.kind?_eq (id : Nat) : c.kind? id = ctx.symbols.kind? id := by
  cases stands : ctx.symbols.entries[id]? with
  | some sym =>
    rcases keeps.body_of_symbol stands with ⟨body, hit, kept⟩
    rw [keeps.kind_of_body hit, kind?_of_body? hit]
  | none =>
    have beyond := List.getElem?_eq_none_iff.mp stands
    rw [keeps.entries.length_eq] at beyond
    have absent : c.entries[id]? = none := List.getElem?_eq_none_iff.mpr beyond
    rw [kind?, body?, entry?, absent, SymbolTable.kind?, stands]
    rfl

theorem Keeps.kind?_isNamed (isNamed : ctx.isNamed kind ty = true) :
    ∃ id, ty = .named id ∧ c.kind? id = some kind := by
  cases ty with
  | named id =>
    grind [kind?_eq, kind?, Check.Context.isNamed]
  | scalar | string | vector => cases isNamed

theorem Keeps.isInline (inline : Check.isInline ctx ty = true) : IsInline c ty := by
  cases ty with
  | scalar kind => exact .scalar kind
  | string => cases inline
  | vector _ => cases inline
  | named id =>
    rw [Check.isInline, Bool.or_eq_true] at inline
    rcases inline with isStruct | isEnum
    · rcases keeps.kind?_isNamed isStruct with ⟨_, same, kind⟩
      cases same
      exact .struct kind
    · rcases keeps.kind?_isNamed isEnum with ⟨_, same, kind⟩
      cases same
      exact .enum kind
    · intro kind same
      cases same

theorem Keeps.isElement (means : Check.Denotes ctx.symbols ns raw ty)
    (flat : ∀ inner, ty ≠ .vector inner)
    (notUnion : ∀ id, ty = .named id → ctx.symbols.kind? id ≠ some .union)
    (notService : ∀ id, ty = .named id → ctx.symbols.kind? id ≠ some .service) :
    IsElement c ty := by
  cases means with
  | scalar kind _ => exact .inline (.scalar kind)
  | string _ => exact .string
  | vector => exact absurd rfl (flat _)
  | @named _ id _ resolved =>
    rcases keeps.regular.getElem?_of_resolve resolved with ⟨sym, stands⟩
    have known : c.kind? id = some sym.decl.kind := by
      rw [keeps.kind?_eq, SymbolTable.kind?_eq_some_iff]
      exact ⟨sym, stands, rfl⟩
    have notUnion := notUnion id rfl
    have notService := notService id rfl
    rw [← keeps.kind?_eq, known] at notUnion notService
    cases kind : sym.decl.kind with
    | enum => exact .inline (.enum (known.trans (congrArg some kind)))
    | struct => exact .inline (.struct (known.trans (congrArg some kind)))
    | table => exact .table (known.trans (congrArg some kind))
    | union => exact absurd (congrArg some kind) notUnion
    | service => exact absurd (congrArg some kind) notService

theorem Keeps.isMember (means : Check.Denotes ctx.symbols ns raw ty)
    (notService : ¬ ctx.isNamed .service ty = true) : IsMember c ty := by
  by_cases isUnion : ctx.isNamed .union ty = true
  · exact .union (keeps.kind?_isNamed isUnion)
  · cases ty with
    | vector elem =>
      generalize same : FieldType.vector elem = ty at means
      cases means with
      | scalar | string | named => cases same
      | vector _ means flat notUnion notService =>
        exact .vector (keeps.isElement means flat notUnion notService)
    | scalar kind => exact .element (.inline (.scalar kind))
    | string => exact .element .string
    | named id =>
      exact .element (keeps.isElement means (fun _ same => nomatch same)
        (Check.Context.isNamed_eq_false isUnion) (Check.Context.isNamed_eq_false notService))

theorem Keeps.closedBody (kept : Check.KeepsBody ctx sym raw body) : ClosedBody c body := by
  cases kept with
  | @enum _ _ ty => exact .enum ty
  | union kept =>
    refine .union ?_
    intro alt mem
    rcases List.getElem?_of_mem mem with ⟨i, place⟩
    rcases exists_of_forall₂_right kept place with ⟨_, _, keepsVariant⟩
    rw [keeps.kind?_eq]
    exact keepsVariant.isTable
  | struct kept =>
    refine .struct ?_
    intro f mem
    rcases List.getElem?_of_mem mem with ⟨i, place⟩
    rcases exists_of_forall₂_right kept.kept place with ⟨_, _, keepsField⟩
    exact keeps.isInline keepsField.inline
  | table kept =>
    refine .table ?_ ?_
    · intro f mem
      rcases List.getElem?_of_mem mem with ⟨i, place⟩
      rcases exists_of_forall₂_right kept.kept place with ⟨_, _, keepsField⟩
      exact keeps.isMember keepsField.denotes keepsField.notService
    · intro f mem
      rcases List.getElem?_of_mem mem with ⟨i, place⟩
      rcases exists_of_forall₂_right kept.kept place with ⟨_, _, keepsField⟩
      rw [keepsField.typeSlot_eq]
      constructor
      · intro tagged
        by_cases isUnion : ctx.isNamed .union f.type = true
        · exact keeps.kind?_isNamed isUnion
        grind
      · rintro ⟨id, type_eq, isUnion⟩
        have named : ctx.isNamed .union f.type = true := by
          rw [type_eq, Check.Context.isNamed, ← keeps.kind?_eq, isUnion]
          rfl
        rw [if_pos named]
        rfl
  | service kept =>
    refine .service ?_
    intro method mem
    rcases List.getElem?_of_mem mem with ⟨i, place⟩
    rcases exists_of_forall₂_right kept place with ⟨_, _, keepsMethod⟩
    rw [keeps.kind?_eq, keeps.kind?_eq]
    exact ⟨keepsMethod.requestIsTable, keepsMethod.responseIsTable⟩

end

/-! ## Accepted catalogs are sound -/

/-- A table whose fields have names and slots of their own and types that can stand there. -/
structure SoundTable (c : Catalog) (t : TableType) : Prop where
  nodup_names : (t.fields.map TableField.name).Nodup
  nodup_slots : (t.fields.flatMap TableField.slots).Nodup
  slot_lt : ∀ slot ∈ t.fields.flatMap TableField.slots, slot < t.slotCount
  closed : ClosedBody c (.table t)

theorem SoundTable.isMember (sound : SoundTable c t) (mem : f ∈ t.fields) : IsMember c f.type := by
  cases sound.closed with
  | table isMember _ => exact isMember f mem

theorem SoundTable.exists_typeSlot (sound : SoundTable c t) (mem : f ∈ t.fields)
    (isUnion : IsUnion c f.type) : ∃ slot, f.typeSlot = some slot := by
  cases sound.closed with
  | table _ tagged => exact Option.isSome_iff_exists.mp ((tagged f mem).mpr isUnion)

/-- A catalog that is consistent in itself. -/
structure Sound (c : Catalog) : Prop where
  tables : ∀ id t, c.body? id = some (.table t) → SoundTable c t
  unions :
    ∀ id union, c.body? id = some (.union union) →
      union.variants.map Variant.tag = List.range' 1 union.variants.length ∧
        union.variants.length ≤ 255
  structs :
    ∃ rank : Nat → Nat,
      ∀ id struct, c.body? id = some (.struct struct) →
        rank id < c.entries.length ∧ SoundStruct c rank id struct

theorem Keeps.soundTable {ctx : Check.Context} (keeps : Keeps ctx c) {id : Nat}
    (hit : c.body? id = some (.table t)) : SoundTable c t := by
  rcases keeps.symbol_of_body hit with ⟨sym, _, own⟩
  generalize sym.decl.body = raw at own
  have closed := keeps.closedBody own
  cases own with
  | @table fs _ kept =>
    refine ⟨?_, kept.nodup_slots, kept.slot_lt, closed⟩
    have names : t.fields.map TableField.name = fs.map Field.name := by
      refine map_eq_of_forall₂ kept.kept ?_
      intro f own keepsField
      rw [keepsField.eq_slotted]
      rfl
    rw [names]
    exact kept.nodup_names

theorem Keeps.sound {ctx : Check.Context} (keeps : Keeps ctx c) : Sound c := by
  rcases keeps.regular.exists_ordered keeps.cycleFree with ⟨_, order, ordered, nodup, covers⟩
  refine ⟨fun _ _ hit => keeps.soundTable hit, ?_, order.idxOf, ?_⟩
  · intro id union hit
    rcases keeps.symbol_of_body hit with ⟨sym, _, kept⟩
    generalize sym.decl.body = raw at kept
    cases kept with
    | union _ distinct short => exact ⟨distinct.tags_eq, short⟩
  · intro id struct hit
    refine ⟨?_, keeps.soundStruct ordered nodup covers hit⟩
    have isStruct : ctx.symbols.IsStruct id := keeps.kind_of_body hit
    have small : order.length ≤ (List.range c.entries.length).length := by
      apply nodup.length_le_of_subset
      intro other mem
      have below := ((covers other).mp mem).lt_length
      rw [keeps.entries.length_eq] at below
      exact List.mem_range.mpr below
    grind

/-- Structs that hold structs of lower rank only do not contain themselves. -/
theorem Sound.acyclic (sound : Sound c) (id : Nat) : ¬ Relation.TransGen c.Contains id id := by
  rcases sound.structs with ⟨rank, ranked⟩
  have lower :
      ∀ outer inner, Relation.TransGen c.Contains outer inner → rank inner < rank outer := by
    intro outer inner contains
    have step : ∀ outer inner, c.Contains outer inner → rank inner < rank outer := by
      rintro outer inner ⟨struct, f, body, mem, type_eq, isStruct⟩
      rcases entry?_of_kind? isStruct with ⟨e, stands, kind⟩
      have innerBody : c.body? inner = some e.body := by
        rw [body?, stands, Option.map_some]
      cases nested : e.body with
      | struct nestedType =>
        grind [SoundStruct.lower]
      | enum | union | table | service => rw [nested] at kind; cases kind
    induction contains with
    | single contains => exact step _ _ contains
    | tail _ contains ih => exact Nat.lt_trans (step _ _ contains) ih
  grind

end Catalog

/-! ## Directives -/

namespace Check

/-- The root type, if there is one, is a table, and the file identifier is valid. -/
structure Directives.Holds (ctx : Context) (s : Directives) : Prop where
  rootIsTable : ∀ id, s.rootType = some id → ctx.symbols.kind? id = some .table
  identifiesFile : ∀ v, s.fileIdentifier = some v → isFileIdentifier v = true

theorem holds_directive (holds : s.Holds ctx) (item : Item) :
    (directive ctx inForce s item).value.Holds ctx := by
  unfold directive
  split
  · rw [Report.value_bind]
    split
    · exact holds
    · split
      · next isTable =>
          cases inForce with
          | true =>
            refine ⟨?_, holds.identifiesFile⟩
            rintro _ ⟨⟩
            exact isTable
          | false => exact holds
      · exact holds
  · split
    · next valid =>
        cases inForce with
        | true =>
          refine ⟨holds.rootIsTable, ?_⟩
          rintro _ ⟨⟩
          exact valid
        | false => exact holds
    · exact holds
  · cases inForce with
    | true => exact ⟨holds.rootIsTable, holds.identifiesFile⟩
    | false => exact holds
  · exact holds

/-- What every directive keeps holds of the directives of all files. -/
theorem holds_of_clean (clean : (directives ctx e schemas).Clean) :
    (directives ctx e schemas).value.Holds ctx := by
  refine Report.through_induction (motive := fun _ s => s.Holds ctx) ?_ ?_ clean
  · exact ⟨fun _ none => (by cases none), fun _ none => (by cases none)⟩
  intro _ sch s _ holds itemsClean
  refine Report.through_induction (motive := fun _ s => s.Holds ctx) holds ?_ itemsClean
  exact fun _ item s _ holds _ => holds_directive holds item

end Check

namespace Catalog

variable {e : Option Text}

/-- What an accepted catalog is made of: a clean check, the entries of its symbols and its
directives. -/
theorem eq_of_accepted (ok : (ofSymbols schemas symbols e old).value = .accepted c) :
    let ctx := checkContext schemas symbols
    let checked := Check.all ctx e (Schema.sortByPath schemas)
    let hit := (Check.directives ctx e (Schema.sortByPath schemas)).value
    checked.Clean ∧
      (symbols.entries.mapM fun sym =>
          (checked.value.body? sym).map (Check.entryOf sym)) = some c.entries ∧
      c =
        ⟨c.entries, Check.modulesOf c.entries, hit.rootType, hit.fileIdentifier,
          hit.fileExtension, ctx.declared⟩ := by
  unfold ofSymbols at ok
  simp only at ok
  split at ok
  · cases ok
  · next errors =>
      rw [Bool.not_eq_true, DiagnosticAt.hasErrors_append, Bool.or_eq_false_iff] at errors
      split at ok
      · cases ok
      · next es listed =>
          cases ok
          exact ⟨errors.2, listed, rfl⟩

variable (ok : (ofSymbols schemas (SymbolTable.ofSchemas schemas).value e old).value = .accepted c)
include ok

theorem keeps_of_accepted :
    Keeps (checkContext schemas (SymbolTable.ofSchemas schemas).value) c := by
  grind [SymbolTable.regular_ofSchemas, ofSymbols_value]

theorem sound_of_accepted : Sound c :=
  (keeps_of_accepted ok).sound

theorem closed_of_accepted : Closed c := by
  have keeps := keeps_of_accepted ok
  have complete := keeps.complete
  refine ⟨complete.ids_eq, ?_, ?_, keeps.sound.acyclic, ?_⟩
  · intro group mem id fits
    rw [← List.mem_range, ← complete.modules_perm.mem_iff, List.mem_flatMap]
    exact ⟨group, mem, fits⟩
  · intro e mem
    rcases List.getElem?_of_mem mem with ⟨i, place⟩
    rcases exists_of_forall₂_right keeps.entries place with ⟨sym, _, body, rfl, kept⟩
    exact keeps.closedBody kept
  · intro id root
    rcases eq_of_accepted ok with ⟨clean, _, parts⟩
    rw [parts] at root
    rw [keeps.kind?_eq]
    simp only [Check.all, Report.clean_bind] at clean
    exact (Check.holds_of_clean clean.2.2.2.2.2.2.1).rootIsTable id root

end Catalog

end FlatSchema
