import FlatSchema.Proofs.CheckedCatalog

/-!
# Sound catalogs

An accepted catalog is consistent in itself: fields refer to entries that
exist, slots are distinct, the tags of a union count from one, and the fields
of a struct tile it and are aligned as their types ask.  These facts are
stated of catalogs alone, so that readers and writers of records need not know
where a catalog comes from.
-/

namespace FlatSchema

open Check StructLayout SymbolTable

variable {c : Catalog} {α β : Type}

theorem exists_ok_of_isOk {out : Except α β} (ok : out.isOk = true) : ∃ v, out = .ok v := by
  cases out with
  | ok v => exact ⟨v, rfl⟩
  | error => cases ok

namespace Catalog

/-- The names that an object answers to although it holds no field of that name. -/
def inheritedNames : List String :=
  ["__defineGetter__", "__defineSetter__", "__lookupGetter__", "__lookupSetter__", "__proto__",
    "constructor", "hasOwnProperty", "isPrototypeOf", "propertyIsEnumerable", "toLocaleString",
    "toString", "valueOf"]

def Body.fieldNames : Body → List String
  | .table t => t.fields.map TableField.name
  | .struct s => s.fields.map StructField.name
  | _ => []

/-- No field has a name that objects inherit.  Records are described by what they hold: where an
object stands for one, a field of such a name is never missing, and `__proto__` is never held. -/
def Ordinary (c : Catalog) : Prop :=
  ∀ e ∈ c.entries, ∀ name ∈ e.body.fieldNames, name ∉ inheritedNames

instance (c : Catalog) : Decidable c.Ordinary :=
  inferInstanceAs (Decidable (∀ e ∈ c.entries, _))

/-- The room that a value of a type takes where it stands in place. -/
def storage? (c : Catalog) (ty : FieldType) : Option (Storage Nat) :=
  match c.scalar? ty, ty with
  | some kind, _ => some kind.storage
  | none, .named id =>
    match c.body? id with
    | some (.struct struct) => some ⟨struct.size, struct.alignment⟩
    | _ => none
  | none, _ => none

theorem storage?_scalar (stored : c.scalar? ty = some kind) :
    c.storage? ty = some kind.storage := by
  simp only [storage?, stored]

theorem storage?_struct {id : Nat} (body : c.body? id = some (.struct struct)) :
    c.storage? (.named id) = some ⟨struct.size, struct.alignment⟩ := by
  simp only [storage?, scalar?, body]

/-- A struct whose fields tile it, each aligned as its type asks, and hold structs of lower rank
only. -/
structure SoundStruct (c : Catalog) (rank : Nat → Nat) (id : Nat) (struct : StructType) : Prop where
  isAlignment : IsAlignment struct.alignment
  dvd_size : struct.alignment ∣ struct.size
  nonempty : struct.fields ≠ []
  tiles : Tiles 0 (struct.fields.map placementOf) struct.size
  stored :
    ∀ f ∈ struct.fields, ∃ cell,
      c.storage? f.type = some cell ∧ f.size = cell.size ∧
        cell.alignment ∣ f.offset ∧ cell.alignment ∣ struct.alignment
  lower :
    ∀ f ∈ struct.fields, ∀ inner nested,
      f.type = .named inner → c.body? inner = some (.struct nested) → rank inner < rank id

/-- Places that tile a stretch do not begin after its end. -/
theorem le_of_tiles (tiles : Tiles start places stop) : start ≤ stop := by
  induction places generalizing start with
  | nil => exact Nat.le_of_eq tiles
  | cons hd rest ih =>
    have tail := ih tiles.2
    omega

/-- A struct takes at least one byte: its first field does, by the rank of structs. -/
theorem size_pos_of_sound
    (sound : ∀ id struct, c.body? id = some (.struct struct) → SoundStruct c rank id struct)
    {id : Nat} (body : c.body? id = some (.struct struct)) : 0 < struct.size := by
  induction bound : rank id using Nat.strongRecOn generalizing id struct with
  | ind level ih =>
    have own := sound id struct body
    cases listed : struct.fields with
    | nil => exact (own.nonempty listed).elim
    | cons hd rest =>
      have mem : hd ∈ struct.fields := by
        rw [listed]
        exact List.mem_cons_self
      rcases own.stored hd mem with ⟨cell, room, size, _⟩
      have pos : 0 < cell.size := by
        cases known : c.scalar? hd.type with
        | some kind =>
          rw [storage?_scalar known] at room
          cases room
          exact kind.size_pos
        | none =>
          cases type_eq : hd.type with
          | named inner =>
            simp only [storage?, known] at room
            grind [SoundStruct.lower]
          | scalar kind =>
            rw [type_eq] at known
            cases known
          | string | vector =>
            rw [type_eq] at room
            cases room
      have tiles := own.tiles
      rw [listed] at tiles
      have behind := le_of_tiles tiles.2
      simp only [placementOf] at behind
      omega

/-! ## Accepted catalogs are sound -/

section

variable {id : Nat}

variable {ctx : Context} {c : Catalog} (keeps : Keeps ctx c)
include keeps

theorem Keeps.body_of_symbol {sym : Symbol} (stands : ctx.symbols.entries[id]? = some sym) :
    ∃ body, c.body? id = some body ∧ KeepsBody ctx sym sym.decl.body body := by
  rcases exists_of_forall₂_left keeps.entries stands with ⟨e, hit, body, rfl, kept⟩
  refine ⟨body, ?_, kept⟩
  rw [body?, entry?, hit]
  rfl

theorem Keeps.symbol_of_body {body : Body} (hit : c.body? id = some body) :
    ∃ sym, ctx.symbols.entries[id]? = some sym ∧ KeepsBody ctx sym sym.decl.body body := by
  rw [body?, Option.map_eq_some_iff] at hit
  rcases hit with ⟨e, hit, rfl⟩
  rcases exists_of_forall₂_right keeps.entries hit with ⟨sym, stands, body, rfl, kept⟩
  exact ⟨sym, stands, kept⟩

theorem Keeps.struct_of_kind (isStruct : ctx.symbols.kind? id = some .struct) :
    ∃ struct,
      c.body? id = some (.struct struct) ∧
        (layoutsOf ctx (enumTypes ctx).value).lookup id = some (layoutOf struct) := by
  rcases body_of_isStruct isStruct with ⟨sym, fs, stands, raw⟩
  rcases keeps.body_of_symbol stands with ⟨body, hit, kept⟩
  rw [raw] at kept
  cases kept with
  | @struct _ struct kept =>
    refine ⟨struct, hit, ?_⟩
    rw [← keeps.regular.id_eq stands]
    exact kept.laidOut

theorem Keeps.body_of_enum (ok : (enumTypes ctx).value.lookup id = some enum) :
    c.body? id = some (.enum enum) := by
  have isEnum := isEnum_of_lookup keeps.regular ok
  rcases kind?_eq_some_iff.mp isEnum with ⟨sym, stands, kind⟩
  rcases keeps.body_of_symbol stands with ⟨body, hit, kept⟩
  rw [hit]
  rw [Decl.kind] at kind
  rw [← keeps.regular.id_eq stands] at ok
  generalize sym.decl.body = raw at kept kind
  cases kept with
  | enum own _ =>
    rw [own] at ok
    cases ok
    rfl
  | union | struct | table | service => cases kind

/-- The room that the layout gave a type is the room that the catalog gives it. -/
theorem Keeps.storage_eq
    (stored :
      StructLayout.storage? ((Check.layoutsOf ctx (Check.enumTypes ctx).value).lookup ·)
        (shapeOf ctx (enumTypes ctx).value (some ty)) = some cell) : c.storage? ty = some cell := by
  cases ty with
  | scalar kind => exact stored
  | string => cases stored
  | vector elem => cases stored
  | named id =>
    rw [Check.shapeOf] at stored
    split at stored
    · next enum ok =>
        cases stored
        apply storage?_scalar
        rw [scalar?, keeps.body_of_enum ok]
    · split at stored
      · next isStruct =>
          rcases keeps.struct_of_kind isStruct with ⟨struct, body, laidOut⟩
          rw [StructLayout.storage?, laidOut] at stored
          cases stored
          exact storage?_struct body
      · cases stored

theorem Keeps.kind_of_body (hit : c.body? id = some body) :
    ctx.symbols.kind? id = some body.kind := by
  rcases keeps.symbol_of_body hit with ⟨sym, stands, kept⟩
  rw [kind?_eq_some_iff]
  exact ⟨sym, stands, kept.kind_eq.symm⟩

theorem Keeps.soundStruct {order : List Nat} (ordered : ctx.symbols.Ordered order)
    (nodup : order.Nodup) (covers : ∀ id, id ∈ order ↔ ctx.symbols.IsStruct id)
    (hit : c.body? id = some (.struct struct)) : SoundStruct c order.idxOf id struct := by
  rcases keeps.symbol_of_body hit with ⟨sym, stands, kept⟩
  cases raw : sym.decl.body with
  | struct fs =>
    rw [raw] at kept
    cases kept with
    | struct kept =>
      rcases kept.stored with ⟨cells, stored, sound⟩
      refine ⟨sound.isAlignment, sound.dvd_size, ?_, sound.tiles, ?_, ?_⟩
      · intro empty
        have none := kept.kept.length_eq
        rw [empty, List.length_nil, List.length_eq_zero_iff] at none
        exact kept.nonempty none
      · intro f mem
        rcases List.getElem?_of_mem mem with ⟨i, place⟩
        rcases exists_of_forall₂_left stored place with ⟨cell, own, room⟩
        rcases exists_of_forall₂_left sound.holds own with ⟨spot, spotPlace, holds⟩
        rw [layoutOf, List.getElem?_map, place] at spotPlace
        cases spotPlace
        exact ⟨cell, keeps.storage_eq room, holds.1, holds.2,
          sound.dvd_alignment cell (List.mem_of_getElem? own)⟩
      · intro f mem inner nested type_eq innerFound
        rcases List.getElem?_of_mem mem with ⟨i, place⟩
        rcases exists_of_forall₂_right kept.kept place with ⟨own, ownPlace, keepsField⟩
        have means := keepsField.denotes
        rw [type_eq] at means
        have contained := mem_contained stands raw (List.mem_of_getElem? ownPlace)
          means (keeps.kind_of_body innerFound)
        have isStruct : ctx.symbols.IsStruct id := keeps.kind_of_body hit
        exact (ordered.idxOf_lt nodup ((covers id).mpr isStruct) contained).2
  | enum | union | table | service => rw [raw] at kept; cases kept

end

end Catalog

end FlatSchema
