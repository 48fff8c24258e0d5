import FlatSchema.Proofs.Reading
import FlatSchema.Proofs.RecordSteps
import Mathlib.Data.List.Nodup

/-!
# Defaults that are left out

A field that holds exactly its default may as well be missing or null: the
writers take the same steps for both, so the bytes are the same.  This holds
at every depth of a record, whether or not defaults are written.

The two runs write a field alike because they compare and store the same
scalar; no other step reads the field.
-/

namespace FlatSchema

open Build
open Catalog (SoundTable TableField TableType)
open Double (nan)
open Encode (bytesOf liftM_ok root)

/-! ## Changing one field of a record -/

namespace Fields

variable (fields : Fields)

/-- The fields of a record without those of a name. -/
def without (name : String) : Fields :=
  fields.filter fun f => f.1 ≠ name

/-- The fields of a record with another value under a name. -/
def withValue (name : String) (v : Value) : Fields :=
  fields.map fun f => if f.1 = name then (name, v) else f

theorem lookup_without (name other : String) :
    (fields.without name).lookup other = if other = name then none else fields.lookup other := by
  induction fields with
  | nil => simp [without]
  | cons hd rest ih =>
    obtain ⟨key, held⟩ := hd
    unfold without at ih ⊢
    by_cases own : key = name
    · grind
    · grind

theorem lookup_withValue (name : String) (v : Value) (other : String) :
    (fields.withValue name v).lookup other =
      if other = name then (fields.lookup name).map fun _ => v else fields.lookup other := by
  induction fields with
  | nil => simp [withValue]
  | cons hd rest ih =>
    obtain ⟨key, held⟩ := hd
    unfold withValue at ih ⊢
    by_cases own : key = name
    · grind
    · grind

theorem present?_eq_of_lookup_eq {fields others : Fields}
    (same : fields.lookup name = others.lookup name) :
    fields.present? name = others.present? name := by
  rw [present?, present?, same]

theorem present?_of_lookup {fields : Fields} (held : fields.lookup name = some v)
    (notNull : v ≠ .null) : fields.present? name = some v := by
  grind [present?]

end Fields

/-! ## Exact defaults -/

/-- A scalar is exactly another.  The two zeros differ; all that is not a number is alike. -/
def ScalarValue.IsExactly (v other : ScalarValue) : Prop :=
  v = other ∨
    ∃ left right,
      v = .number left ∧ other = .number right ∧ left.isNaN = true ∧ right.isNaN = true

namespace Double

theorem truncate?_of_isNaN {num : Double} (isNaN : num.isNaN = true) : num.truncate? = none := by
  have infinite : num.isFinite = false := by
    grind [isFinite, isNaN]
  rw [truncate?, infinite]
  rfl

end Double

namespace ScalarValue.IsExactly

variable {v fallback : ScalarValue}

theorem same_eq (exactly : v.IsExactly fallback) : v.same fallback = fallback.same fallback := by
  grind [IsExactly, same]

/-- What is exactly a default is stored like the default. -/
theorem encode?_eq (exactly : v.IsExactly fallback) (kind : ScalarKind) :
    kind.encode? v = kind.encode? fallback := by
  rcases exactly with rfl | ⟨left, right, rfl, rfl, leftNaN, rightNaN⟩
  · rfl
  · cases kind <;>
      simp only [ScalarKind.encode?, toNumber, toInteger?, Double.toSingleBits, leftNaN, rightNaN,
        Double.truncate?_of_isNaN leftNaN, Double.truncate?_of_isNaN rightNaN, Bool.or_true,
        if_true]

theorem addFieldScalar_eq {ν : Type} [Extent ν] (exactly : v.IsExactly fallback) (i : ν)
    (kind : ScalarKind) :
    addFieldScalar i kind v fallback = addFieldScalar i kind fallback fallback := by
  unfold addFieldScalar addScalar writeScalar
  rw [exactly.same_eq, exactly.encode?_eq kind]

end ScalarValue.IsExactly

namespace Catalog

/-- A field of a record of a table is given a scalar that is exactly its default. -/
structure HoldsDefault (catalog : Catalog) (t : TableType) (fields : Fields)
    (f : TableField) : Prop where
  member : f ∈ t.fields
  normalizes :
    ∃ kind actual,
      catalog.scalar? f.type = some kind ∧
        (∀ place, Encode.normalize kind place (fields.lookup f.name) = .ok actual) ∧
        actual.IsExactly (f.default.toScalar kind)

/-- One value of a type is another without a field that holds its default.  The field belongs to
a table anywhere inside the value, and is removed from it or set to null. -/
inductive Omits (catalog : Catalog) : FieldType → Value → Value → Prop
  | removed {id : Nat} {t : TableType} {fields : Fields} {field : TableField}
      (body : catalog.body? id = some (.table t)) (holds : catalog.HoldsDefault t fields field) :
      Omits catalog (.named id) (.record fields) (.record (fields.without field.name))
  | nulled {id : Nat} {t : TableType} {fields : Fields} {field : TableField}
      (body : catalog.body? id = some (.table t)) (holds : catalog.HoldsDefault t fields field) :
      Omits catalog (.named id) (.record fields) (.record (fields.withValue field.name .null))
  | field {id : Nat} {t : TableType} {fields : Fields} {field : TableField} {inner other : Value}
      (body : catalog.body? id = some (.table t)) (mem : field ∈ t.fields)
      (held : fields.lookup field.name = some inner)
      (nested : Omits catalog field.type inner other) :
      Omits catalog (.named id) (.record fields) (.record (fields.withValue field.name other))
  | element {ty : FieldType} {pre post : List Value} {item other : Value}
      (nested : Omits catalog ty item other) :
      Omits catalog (.vector ty) (.list (pre ++ item :: post)) (.list (pre ++ other :: post))
  | variant {id : Nat} {union : UnionType} {pick : Fields} {name : Text} {variant : Variant}
      {inner other : Value} (body : catalog.body? id = some (.union union))
      (named : pick.lookup "type" = some (.text name))
      (chosen :
        (union.variants.find? fun variant => Text.ofString variant.name == name) = some variant)
      (held : pick.lookup "value" = some inner)
      (nested : Omits catalog (.named variant.table) inner other) :
      Omits catalog (.named id) (.record pick) (.record (pick.withValue "value" other))

end Catalog

/-! ## Writing alike -/

namespace Encode

theorem mapM_congr {elems : List α} {step other : α → ExceptT RecordError (StateM σ) β}
    (same : ∀ elem ∈ elems, step elem = other elem) : elems.mapM step = elems.mapM other := by
  induction elems with
  | nil => rfl
  | cons hd rest ih =>
    rw [List.mapM_cons, List.mapM_cons, same hd List.mem_cons_self,
      ih fun elem mem => same elem (List.mem_cons_of_mem hd mem)]

theorem forM_congr {elems : List α} {step other : α → ExceptT RecordError (StateM σ) PUnit}
    (same : ∀ elem ∈ elems, step elem = other elem) : elems.forM step = elems.forM other := by
  show forM elems step = forM elems other
  induction elems with
  | nil => rfl
  | cons hd rest ih =>
    rw [List.forM_cons, List.forM_cons, same hd List.mem_cons_self,
      ih fun elem mem => same elem (List.mem_cons_of_mem hd mem)]

variable {ν : Type} [Extent ν] {catalog : Catalog} {entry : Catalog.Entry}
  {t : TableType} {fields others : Fields} {kids : List (String × Child ν)}
  {write : Catalog.SlotWrite}

/-- Records whose fields are written alike are written alike. -/
theorem writeTable_congr
    (referred :
      ∀ f ∈ t.fields, f.deprecated = false →
        (writeReferred catalog entry fields f : Encode ν _) = writeReferred catalog entry others f)
    (slots :
      ∀ kids, ∀ write ∈ t.writeOrder catalog,
        (writeSlot catalog entry fields kids write : Encode ν Unit) =
          writeSlot catalog entry others kids write) :
    (writeTable catalog entry t fields : Encode ν ν) = writeTable catalog entry t others := by
  rw [writeTable_eq, writeTable_eq]
  have live :
      ∀ f ∈ t.fields.filter fun f => !f.deprecated,
        (writeReferred catalog entry fields f : Encode ν _) =
          writeReferred catalog entry others f := by
    grind
  rw [mapM_congr live]
  refine bind_congr fun kids => bind_congr fun _ => ?_
  rw [forM_congr (slots (kids.filterMap id))]

theorem writeReferred_congr {f : TableField}
    (same : fields.present? f.name = others.present? f.name) :
    (writeReferred catalog entry fields f : Encode ν _) = writeReferred catalog entry others f := by
  rw [writeReferred, writeReferred, same]

theorem writeSlot_congr
    (same : fields.present? write.field.name = others.present? write.field.name) :
    (writeSlot catalog entry fields kids write : Encode ν Unit) =
      writeSlot catalog entry others kids write := by
  simp only [writeSlot, same]

/-- The slots of what is stored by reference do not depend on the record. -/
theorem writeSlot_referred (notScalar : catalog.scalarOf write.field.type = .ok none)
    (notStruct : catalog.structOf write.field.type = .ok none) :
    (writeSlot catalog entry fields kids write : Encode ν Unit) =
      writeSlot catalog entry others kids write := by
  simp [writeSlot, notScalar, notStruct]

/-- A field that holds its default is written like one that is missing. -/
theorem writeSlot_default (stored : catalog.scalar? write.field.type = some kind)
    (normalized : ∀ place, normalize kind place (fields.lookup write.field.name) = .ok actual)
    (exactly : actual.IsExactly (write.field.default.toScalar kind))
    (absent : others.present? write.field.name = none) :
    (writeSlot catalog entry fields kids write : Encode ν Unit) =
      writeSlot catalog entry others kids write := by
  have here :
      ∃ given, fields.present? write.field.name = some given ∧
        fields.lookup write.field.name = some given := by
    have hit := normalized ""
    unfold normalize at hit
    grind [Fields.present?]
  rcases here with ⟨given, here, held⟩
  simp only [held] at normalized
  simp only [writeSlot, Catalog.scalarOf_of_scalar? stored, here, absent, liftM_ok, pure_bind,
    normalized, exactly.addFieldScalar_eq]

/-- Two values of a type that is stored by reference are written by the same steps. -/
structure WritesAlike (ν : Type) [Extent ν] (catalog : Catalog) (ty : FieldType)
    (v other : Value) : Prop where
  value_ne : v ≠ .null
  other_ne : other ≠ .null
  notScalar : catalog.scalarOf ty = .ok none
  notStruct : catalog.structOf ty = .ok none
  child :
    ∀ f place, f.type = ty →
      (writeChild catalog f v place : Encode ν _) = writeChild catalog f other place
  table :
    ∀ id, ty = .named id →
      ∃ fields others,
        v = .record fields ∧ other = .record others ∧
          ∀ entry table, catalog.body? id = some (.table table) →
            (writeTable catalog entry table fields : Encode ν ν) =
              writeTable catalog entry table others

section

variable {id : Nat}

/-- Records of a table that are written as tables alike are written alike. -/
theorem WritesAlike.of_table (body : catalog.body? id = some (.table t))
    (same :
      ∀ entry,
        (writeTable catalog entry t fields : Encode ν ν) = writeTable catalog entry t others) :
    WritesAlike ν catalog (.named id) (.record fields) (.record others) := by
  rcases Option.map_eq_some_iff.mp body with ⟨own, stands, declared⟩
  have hit := Catalog.entryOf_of_entry? stands
  refine ⟨Value.noConfusion, Value.noConfusion, ?_, ?_, ?_, ?_⟩
  · rw [Catalog.scalarOf_named stands, declared]
  · rw [Catalog.structOf_named stands, declared]
  · simp_all [writeChild_table]
  grind

/-- A record without a field that holds its default is written alike. -/
theorem WritesAlike.omit (own : SoundTable catalog t) (body : catalog.body? id = some (.table t))
    (holds : catalog.HoldsDefault t fields f) (absent : others.present? f.name = none)
    (apart : ∀ name, name ≠ f.name → fields.lookup name = others.lookup name) :
    WritesAlike ν catalog (.named id) (.record fields) (.record others) := by
  rcases holds.normalizes with ⟨kind, actual, stored, normalized, exactly⟩
  refine .of_table body fun entry => writeTable_congr ?_ ?_
  · intro other mem live
    by_cases same : other.name = f.name
    · cases List.inj_on_of_nodup_map own.nodup_names mem holds.member same
      rw [writeReferred_scalar stored, writeReferred_scalar stored]
    · exact writeReferred_congr (Fields.present?_eq_of_lookup_eq (apart _ same))
  · intro kids write mem
    by_cases same : write.field.name = f.name
    · cases List.inj_on_of_nodup_map own.nodup_names
        (Catalog.field_of_mem_writeOrder mem).1 holds.member same
      exact writeSlot_default stored normalized exactly absent
    · exact writeSlot_congr (Fields.present?_eq_of_lookup_eq (apart _ same))

/-- A record with another value for what a field refers to is written alike if the values are. -/
theorem WritesAlike.field {inner : Value} (own : SoundTable catalog t)
    (body : catalog.body? id = some (.table t)) {f : TableField}
    (mem : f ∈ t.fields) (held : fields.lookup f.name = some inner)
    (nested : WritesAlike ν catalog f.type inner other) :
    WritesAlike ν catalog (.named id) (.record fields)
      (.record (fields.withValue f.name other)) := by
  have apart :
      ∀ name, name ≠ f.name →
        fields.present? name = Fields.present? (fields.withValue f.name other) name := by
    intro name different
    apply Fields.present?_eq_of_lookup_eq
    rw [Fields.lookup_withValue, if_neg different]
  have here : fields.present? f.name = some inner := Fields.present?_of_lookup held nested.value_ne
  have replaced : Fields.present? (fields.withValue f.name other) f.name = some other := by
    refine Fields.present?_of_lookup ?_ nested.other_ne
    rw [Fields.lookup_withValue, if_pos rfl, held, Option.map_some]
  refine .of_table body fun entry => writeTable_congr ?_ ?_
  · intro another listed live
    by_cases same : another.name = f.name
    · cases List.inj_on_of_nodup_map own.nodup_names listed mem same
      rw [writeReferred_present here, writeReferred_present replaced, nested.child _ _ rfl]
    · exact writeReferred_congr (apart _ same)
  · intro kids write listed
    by_cases same : write.field.name = f.name
    · cases List.inj_on_of_nodup_map own.nodup_names
        (Catalog.field_of_mem_writeOrder listed).1 mem same
      exact writeSlot_referred nested.notScalar nested.notStruct
    · exact writeSlot_congr (apart _ same)

theorem WritesAlike.element (nested : WritesAlike ν catalog elem item other)
    (shape : (∃ id, elem = .named id) ∨ ∃ inner, elem = .vector inner) (pre post : List Value) :
    WritesAlike ν catalog (.vector elem) (.list (pre ++ item :: post))
      (.list (pre ++ other :: post)) := by
  refine ⟨Value.noConfusion, Value.noConfusion, rfl, rfl, ?_, fun _ => FieldType.noConfusion⟩
  intro f place type_eq
  rw [writeChild_vector type_eq, writeChild_vector type_eq]
  rcases shape with ⟨id, rfl⟩ | ⟨inner, rfl⟩
  · rw [writeVector_named nested.notScalar nested.notStruct,
      writeVector_named nested.notScalar nested.notStruct]
    rcases nested.table id rfl with ⟨fields, others, rfl, rfl, same⟩
    cases known : catalog.tableOf id with
    | error err => rfl
    | ok hit =>
      have alike :
          (writeElement catalog hit.1 hit.2 place (.record fields, pre.length) : Encode ν ν) =
            writeElement catalog hit.1 hit.2 place (.record others, pre.length) :=
        same hit.1 hit.2 (Catalog.tableOf_eq_ok known)
      simp only [liftM_ok, pure_bind, List.zipIdx_append, List.zipIdx_cons, Nat.zero_add,
        List.mapM_append, List.mapM_cons, alike]
  · rw [writeVector_vector, writeVector_vector]

theorem WritesAlike.variant {pick : Fields} {inner : Value}
    (body : catalog.body? id = some (.union union)) (named : pick.lookup "type" = some (.text name))
    (chosen : (union.variants.find? fun alt => Text.ofString alt.name == name) = some alt)
    (held : pick.lookup "value" = some inner)
    (nested : WritesAlike ν catalog (.named alt.table) inner other) :
    WritesAlike ν catalog (.named id) (.record pick) (.record (pick.withValue "value" other)) := by
  rcases Option.map_eq_some_iff.mp body with ⟨own, stands, declared⟩
  have hit := Catalog.entryOf_of_entry? stands
  rcases nested.table alt.table rfl with ⟨fields, others, rfl, rfl, same⟩
  have stillNamed :
      (pick.withValue "value" (.record others)).lookup "type" = some (.text name) := by
    rw [Fields.lookup_withValue, if_neg (by decide), named]
  have replaced :
      (pick.withValue "value" (.record others)).lookup "value" = some (.record others) := by
    rw [Fields.lookup_withValue, if_pos rfl, held, Option.map_some]
  refine ⟨Value.noConfusion, Value.noConfusion, ?_, ?_, ?_, ?_⟩
  · rw [Catalog.scalarOf_named stands, declared]
  · rw [Catalog.structOf_named stands, declared]
  · intro f place type_eq
    rw [writeChild_union type_eq hit declared named chosen held,
      writeChild_union type_eq hit declared stillNamed chosen replaced]
    cases known : catalog.tableOf alt.table with
    | error err => rfl
    | ok target =>
      simp [same _ _ (Catalog.tableOf_eq_ok known)]
  grind

end

end Encode

namespace Catalog

variable {catalog : Catalog} {ty : FieldType} {v other : Value}

/-- Only what is made of tables leaves fields out. -/
theorem Omits.shape (omits : catalog.Omits ty v other) :
    (∃ id, ty = .named id) ∨ ∃ inner, ty = .vector inner := by
  cases omits with
  | removed | nulled | field | variant => exact .inl ⟨_, rfl⟩
  | element => exact .inr ⟨_, rfl⟩

/-- A value without a field that holds its default is written by the same steps. -/
theorem Omits.writesAlike (ν : Type) [Extent ν] (sound : catalog.Sound)
    (omits : catalog.Omits ty v other) : Encode.WritesAlike ν catalog ty v other := by
  induction omits with
  | @removed id t fields f body holds =>
    refine .omit (sound.tables id t body) body holds ?_ ?_
    · rw [Fields.present?, Fields.lookup_without, if_pos rfl]
    · intro name different
      rw [Fields.lookup_without, if_neg different]
  | @nulled id t fields f body holds =>
    refine .omit (sound.tables id t body) body holds ?_ ?_
    · rw [Fields.present?, Fields.lookup_withValue, if_pos rfl]
      cases fields.lookup f.name <;> rfl
    · intro name different
      rw [Fields.lookup_withValue, if_neg different]
  | @field id t fields f inner other body mem held nested ih =>
    exact ih.field (sound.tables id t body) body mem held
  | element nested ih => exact ih.element nested.shape _ _
  | variant body named chosen held nested ih => exact ih.variant body named chosen held

end Catalog

/-- Beasts have cubs, whose weight is not known by default. -/
def beastSchema : Schema where
  path := Text.ofString "beast.fbs"
  span := default
  items :=
    [ .declaration ⟨"Cub", [], [], [], .table
        [⟨"weight", .scalar .float32 default, some ⟨.float nan, default⟩, [], [], default⟩],
        default⟩,
      .declaration ⟨"Beast", [], [], [], .table
        [⟨"cubs", .vector (.named "Cub" default) default, none, [], [], default⟩], default⟩ ]

/-- The table of the cubs. -/
def cubTable : TableType :=
  ⟨[⟨"weight", .scalar .float32, 0, none, .float nan, false, false, false, [], []⟩], 1⟩

/-- The table of the beasts. -/
def beastTable : TableType :=
  ⟨[⟨"cubs", .vector (.named 0), 0, none, .absent, false, false, false, [], []⟩], 1⟩

def beastCatalog : Catalog :=
  ⟨[⟨0, "Cub", [], "Cub", [], [], default, .table cubTable⟩,
      ⟨1, "Beast", [], "Beast", [], [], default, .table beastTable⟩],
    [⟨"", [0, 1]⟩], none, none, none, []⟩

/-- A beast with two cubs. -/
def beastWith (snd : Fields) : Fields :=
  [("cubs", .list [.record [("weight", .scalar (.wide 7))], .record snd])]

end FlatSchema
