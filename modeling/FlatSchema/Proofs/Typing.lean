import FlatSchema.Proofs.ClosedCatalog
import FlatSchema.Proofs.Lookup
import FlatSchema.Proofs.NormalForm
import FlatSchema.Proofs.Writing

/-!
# Values of a type

A value has a type if every part of it has the shape that the type asks for.
Which fields a table must have is no part of that: a value may lack some, at any
depth.  What has been written has its type and lacks nothing, and what has its
type and lacks nothing can be written, up to the limits of the format.
-/

namespace FlatSchema

open Build ScalarKind Text

/-- The scalars that a kind takes: those of 64 bits take no fractions. -/
def ScalarKind.Takes (kind : ScalarKind) (given : ScalarValue) : Prop :=
  ∀ num, kind.isWide = true → given = .number num → num.integer?.isSome = true

namespace Catalog

/-- A value has the shape that a type asks for.  A table asks for it of the fields that are there
and not deprecated, a struct of all its fields. -/
inductive Typed (c : Catalog) : FieldType → Value → Prop where
  | scalar
      (stored : c.scalar? ty = some kind) (takes : kind.Takes given) : Typed c ty (.scalar given)
  | text (text : Text) : Typed c .string (.text text)
  | list (isElement : c.IsElement elem)
      (each : ∀ item ∈ items, Typed c elem item) : Typed c (.vector elem) (.list items)
  | struct {id : Nat} {struct : StructType} {fs : Fields}
      (body : c.body? id = some (.struct struct))
      (complete : ∀ f ∈ struct.fields, (fs.lookup f.name).isSome = true)
      (each : ∀ f ∈ struct.fields, ∀ v, fs.lookup f.name = some v → Typed c f.type v) :
      Typed c (.named id) (.record fs)
  | table {id : Nat} {t : TableType} {fs : Fields} (body : c.body? id = some (.table t))
      (each :
        ∀ f ∈ t.fields, f.deprecated = false → ∀ v, fs.present? f.name = some v →
          Typed c f.type v) : Typed c (.named id) (.record fs)
  | union {id : Nat} {union : UnionType} {pick fs : Fields} {name : Text} {alt : Variant}
      {t : TableType} (body : c.body? id = some (.union union))
      (named : pick.lookup "type" = some (.text name))
      (chosen : (union.variants.find? fun alt => ofString alt.name == name) = some alt)
      (held : pick.lookup "value" = some (.record fs))
      (target : c.body? alt.table = some (.table t))
      (inner : Typed c (.named alt.table) (.record fs)) : Typed c (.named id) (.record pick)

/-- Somewhere inside a value of a type a table lacks a required field: a deprecated one, which is
never written, or one that is missing or null. -/
inductive Lacks (c : Catalog) (lacking : TableField) : FieldType → Value → Prop where
  | own {id : Nat} {t : TableType} {fs : Fields} (body : c.body? id = some (.table t))
      (mem : lacking ∈ t.fields) (required : lacking.required = true)
      (empty : lacking.deprecated = true ∨ fs.present? lacking.name = none) :
      Lacks c lacking (.named id) (.record fs)
  | field {id : Nat} {t : TableType} {fs : Fields} {f : TableField} {v : Value}
      (body : c.body? id = some (.table t)) (mem : f ∈ t.fields) (live : f.deprecated = false)
      (here : fs.present? f.name = some v) (inner : Lacks c lacking f.type v) :
      Lacks c lacking (.named id) (.record fs)
  | element (mem : item ∈ items)
      (inner : Lacks c lacking elem item) : Lacks c lacking (.vector elem) (.list items)
  | variant {id : Nat} {union : UnionType} {pick : Fields} {name : Text} {v : Value} {alt : Variant}
      (body : c.body? id = some (.union union)) (named : pick.lookup "type" = some (.text name))
      (chosen : (union.variants.find? fun alt => ofString alt.name == name) = some alt)
      (held : pick.lookup "value" = some v) (inner : Lacks c lacking (.named alt.table) v) :
      Lacks c lacking (.named id) (.record pick)

/-- A type whose values are stored by reference. -/
def Referred (c : Catalog) : FieldType → Prop
  | .scalar _ => False
  | .string => True
  | .vector _ => True
  | .named id =>
    (∃ t, c.body? id = some (.table t)) ∨
      ∃ union, c.body? id = some (.union union)

variable {c : Catalog} {ty : FieldType} {v : Value} {id : Nat}

/-! ## What a type asks for -/

theorem Typed.exists_scalar (typed : c.Typed ty v) (stored : c.scalar? ty = some kind) :
    ∃ given, v = .scalar given ∧ kind.Takes given := by
  cases typed with
  | scalar own takes =>
    grind
  | text | list => cases stored
  | struct body | table body | union body => simp [scalar?, body] at stored

theorem Typed.exists_text (typed : c.Typed .string v) : ∃ text, v = .text text := by
  cases typed with
  | scalar stored => cases stored
  | text text => exact ⟨text, rfl⟩

theorem Typed.exists_list (typed : c.Typed (.vector elem) v) :
    ∃ items, v = .list items ∧ c.IsElement elem ∧ ∀ item ∈ items, c.Typed elem item := by
  cases typed with
  | scalar stored => cases stored
  | list isElement each => exact ⟨_, rfl, isElement, each⟩

theorem Typed.exists_struct {struct : StructType} (typed : c.Typed (.named id) v)
    (hit : c.body? id = some (.struct struct)) :
    ∃ fs, v = .record fs ∧
      ∀ f ∈ struct.fields, ∃ inner, fs.lookup f.name = some inner ∧ c.Typed f.type inner := by
  cases typed with
  | scalar stored => simp [scalar?, hit] at stored
  | struct body complete each =>
    cases hit.symm.trans body
    refine ⟨_, rfl, fun f mem => ?_⟩
    rcases Option.isSome_iff_exists.mp (complete f mem) with ⟨inner, known⟩
    exact ⟨inner, known, each f mem inner known⟩
  | table body | union body => cases hit.symm.trans body

theorem Typed.exists_table (typed : c.Typed (.named id) v) (hit : c.body? id = some (.table t)) :
    ∃ fs : Fields, v = .record fs ∧
      ∀ f ∈ t.fields, f.deprecated = false → ∀ inner, fs.present? f.name = some inner →
        c.Typed f.type inner := by
  cases typed with
  | scalar stored => simp [scalar?, hit] at stored
  | table body each =>
    grind
  | struct body | union body => cases hit.symm.trans body

theorem Typed.exists_union {union : UnionType} (typed : c.Typed (.named id) v)
    (hit : c.body? id = some (.union union)) :
    ∃ pick name alt fs t,
      v = .record pick ∧ pick.lookup "type" = some (.text name) ∧
        (union.variants.find? fun alt => ofString alt.name == name) = some alt ∧
        pick.lookup "value" = some (.record fs) ∧ c.body? alt.table = some (.table t) ∧
        c.Typed (.named alt.table) (.record fs) := by
  cases typed with
  | scalar stored => simp [scalar?, hit] at stored
  | union body named chosen held target inner =>
    grind
  | struct body | table body => cases hit.symm.trans body

/-- Nothing is lacking where nothing is referred to. -/
theorem Lacks.referred (lacks : c.Lacks f ty v) : c.Referred ty := by
  cases lacks with
  | own body | field body => exact .inl ⟨_, body⟩
  | element => trivial
  | variant body => exact .inr ⟨_, body⟩

/-! ## Types that are not known -/

/-- All but scalars and structs are stored by reference. -/
theorem storage?_reference (notScalar : c.scalarOf ty = .ok none)
    (notStruct : c.structOf ty = .ok none) : c.storage? ty = none := by
  unfold storage?
  rw [scalarOf_eq_ok notScalar]
  cases ty with
  | named id =>
    dsimp only
    split
    · next struct body =>
        rcases entryOf_of_body body with ⟨e, known, own⟩
        simp only [structOf, known, own, bind, Except.bind] at notStruct
        cases notStruct
    · rfl
  | _ => rfl

/-- What the tables of a catalog keep to, so that all that is left to go wrong lies in the record:
vtables can index their slots, their defaults can be stored, and no scalar is required. -/
structure Manageable (c : Catalog) : Prop where
  short : ∀ id t, c.body? id = some (.table t) → t.slotCount ≤ 32765
  stores :
    ∀ id t, c.body? id = some (.table t) → ∀ f ∈ t.fields, ∀ kind,
      c.scalar? f.type = some kind → ∃ bs, kind.encode? (f.default.toScalar kind) = some bs
  optional :
    ∀ id t, c.body? id = some (.table t) → ∀ f ∈ t.fields, f.required = true →
      c.scalar? f.type = none
  identified : ∀ text ∈ c.fileIdentifier, text.length = Buffer.identifierLength

end Catalog

/-- The inline part of every table that has been written, which the second word of its vtable
measures, takes less than 65536 bytes. -/
def Builder.InlineFits (b : Builder Int) : Prop :=
  ∀ words vt,
    (words, vt) ∈ b.vtables → ∀ size, words[1]? = some size → size < 65536

instance (b : Builder Int) : Decidable b.InlineFits :=
  decidable_of_iff (∀ pair ∈ b.vtables, ∀ size ∈ pair.1[1]?, size < 65536)
    ⟨fun all words vt mem => all (words, vt) mem, fun fits pair => fits pair.1 pair.2⟩

namespace Catalog

/-- The number of slots of a body; only tables have any. -/
def Body.slotCount : Body → Nat
  | .table t => t.slotCount
  | _ => 0

theorem slotCount_le {c : Catalog} (few : ∀ e ∈ c.entries, e.body.slotCount ≤ most) (id : Nat)
    (t : TableType) (body : c.body? id = some (.table t)) : t.slotCount ≤ most := by
  rcases Option.map_eq_some_iff.mp body with ⟨e, stands, own⟩
  have bound := few e (List.mem_of_getElem? stands)
  rw [own] at bound
  exact bound

end Catalog

namespace Encode

/-- What a kind takes a scalar for can be stored. -/
theorem exists_encode_coerce (kind : ScalarKind) (given : ScalarValue) :
    ∃ bs, kind.encode? (kind.coerce given) = some bs := by
  cases kind <;> exact ⟨_, rfl⟩

/-- A kind takes a scalar, or the scalar is refused. -/
theorem takes_of_normalize (normalized : normalize kind place (some (.scalar given)) = .ok actual) :
    kind.Takes given := by
  rintro num wide rfl
  grind [normalize, Double.integer?, isWide]

theorem normalize_of_takes (takes : kind.Takes given) (place : String) :
    normalize kind place (some (.scalar given)) = .ok (kind.coerce given) := by
  cases out : normalize kind place (some (.scalar given)) with
  | ok actual =>
    rcases normalize_spec out with ⟨_, ⟨⟩, rfl⟩
    rfl
  | error err =>
    cases kind with
    | int64 | uint64 =>
      cases given with
      | number num =>
        grind [coerce, normalize, Takes]
      | wide | flag => cases out
    | _ => cases given <;> cases out

/-- What stops the writer of a record with which nothing is wrong: its room cannot double, or the
inline part of a table is longer than a vtable can measure. -/
def AtLimit (err : RecordError) (post : Builder Int) : Prop :=
  err = .wire .tooLarge ∧ Builder.growthLimit ≤ post.capacity ∨ ¬post.InlineFits

theorem atLimit_of_isFull (full : IsFull err post) : AtLimit (.wire err) post :=
  .inl ⟨congrArg RecordError.wire full.1, full.2⟩

/-- The error that names a required field. -/
def missing (f : Catalog.TableField) : WireError :=
  .missingField ((some (ofString f.name)).filter fun name => !name.isEmpty)

/-- What stops the writer of a value that has its type, where nothing is open: a limit, or the value
lacks a field, which the error names. -/
def Halts (c : Catalog) (pre : Builder Int) (ty : FieldType) (v : Value) (err : RecordError)
    (post : Builder Int) : Prop :=
  pre.nested = false → c.Manageable → c.Typed ty v →
    AtLimit err post ∨ ∃ f, c.Lacks f ty v ∧ err = .wire (missing f)

theorem halts_of_full (failed : pre.nested = true ∨ IsFull err post) :
    Halts c pre ty v (.wire err) post := by
  grind [atLimit_of_isFull, IsFull, Halts]

/-- What stops the writer of a part of a value stops that of the value. -/
theorem Halts.lift (halts : Halts c mid ty v err post)
    (isClosed : pre.nested = false → mid.nested = false)
    (typed : c.Typed whole w → c.Typed ty v) (lacks : ∀ f, c.Lacks f ty v → c.Lacks f whole w) :
    Halts c pre whole w err post := by
  grind [Halts]

end Encode

end FlatSchema
