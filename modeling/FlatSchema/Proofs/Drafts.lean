import FlatSchema.Emit.Modules
import FlatSchema.Proofs.ClosedCatalog

/-!
# Drafts that can be written

A draft can be written if all the entries that it names exist and nothing in it
is missing.  Over a closed catalog this holds of the draft of every entry, and
so of every module.
-/

namespace FlatSchema

open Catalog (Body Entry IsMember IsUnion StructField TableField entry?_of_kind? scalar?)

namespace Emit

/-- A number that some entry has. -/
abbrev Listed (c : Catalog) (id : Nat) : Prop :=
  ∃ e, c.entry? id = some e

variable (c : Catalog)

def Part.Sound : Part → Prop
  | .entry _ id _ => Listed c id
  | _ => True

def SoundCode (code : Code) : Prop :=
  ∀ part ∈ code, part.Sound c

def Element.Sound : Element → Prop
  | .line code => SoundCode c code
  | .missing _ => False
  | _ => True

/-- A draft that can be written. -/
def SoundDraft (draft : Draft) : Prop :=
  ∀ element ∈ draft, element.Sound c

variable {c : Catalog}

section

variable {code more : Code} {draft rest body : Draft} {α : Type} {items : List α}

@[simp]
theorem soundCode_nil : SoundCode c [] := by
  simp [SoundCode]

@[simp]
theorem soundCode_cons : SoundCode c (part :: code) ↔ part.Sound c ∧ SoundCode c code :=
  List.forall_mem_cons

@[simp]
theorem soundCode_append : SoundCode c (code ++ more) ↔ SoundCode c code ∧ SoundCode c more :=
  List.forall_mem_append

@[simp]
theorem sound_code : (Part.code text).Sound c :=
  trivial

@[simp]
theorem sound_runtime : (Part.runtime name).Sound c :=
  trivial

@[simp]
theorem sound_exported : (Part.exported keyword name).Sound c :=
  trivial

@[simp]
theorem sound_quoted : (Part.quoted text).Sound c :=
  trivial

@[simp]
theorem sound_entry {id : Nat} : (Part.entry pre id post).Sound c ↔ Listed c id :=
  Iff.rfl

@[simp]
theorem soundDraft_nil : SoundDraft c [] := by
  simp [SoundDraft]

@[simp]
theorem soundDraft_cons : SoundDraft c (element :: rest) ↔ element.Sound c ∧ SoundDraft c rest :=
  List.forall_mem_cons

@[simp]
theorem soundDraft_append :
    SoundDraft c (draft ++ rest) ↔ SoundDraft c draft ∧ SoundDraft c rest :=
  List.forall_mem_append

@[simp]
theorem soundDraft_flatMap {each : α → Draft} :
    SoundDraft c (items.flatMap each) ↔ ∀ item ∈ items, SoundDraft c (each item) := by
  grind [SoundDraft]

@[simp]
theorem soundDraft_map {each : α → Element} :
    SoundDraft c (items.map each) ↔ ∀ item ∈ items, (each item).Sound c := by
  simp [SoundDraft]

@[simp]
theorem sound_line : (Element.line code).Sound c ↔ SoundCode c code :=
  Iff.rfl

@[simp]
theorem sound_blank : Element.blank.Sound c :=
  trivial

@[simp]
theorem sound_doc : (Element.doc lines).Sound c :=
  trivial

@[simp]
theorem soundDraft_enclose :
    SoundDraft c (enclose code closing body) ↔ SoundCode c code ∧ SoundDraft c body := by
  have level : Element.indent.Sound c ∧ Element.dedent.Sound c := ⟨trivial, trivial⟩
  simp [enclose, level]

theorem soundCode_intercalate {sep : Code} {codes : List Code} (between : SoundCode c sep)
    (each : ∀ code ∈ codes, SoundCode c code) : SoundCode c (sep.intercalate codes) := by
  induction codes with
  | nil => simp [List.intercalate]
  | cons hd rest ih =>
    rw [List.forall_mem_cons] at each
    cases rest with
    | nil => simpa [List.intercalate] using each.1
    | cons next rest =>
      rw [List.intercalate_cons_of_ne_nil (List.cons_ne_nil _ _)]
      simp [each.1, between, ih each.2]

end

attribute [local simp] exported entryName runtime quoted bracesThen braces

/-! ## Types and fields of structs -/

theorem listed_of_isTable {id : Nat} (isTable : c.kind? id = some .table) : Listed c id :=
  let ⟨e, stands, _⟩ := entry?_of_kind? isTable
  ⟨e, stands⟩

theorem listed_of_struct? {id : Nat} (hit : struct? c ty = some id) : Listed c id := by
  cases ty with
  | named target => grind [struct?, Catalog.body?, Option.map_eq_some_iff]
  | _ => cases hit

theorem sound_objectType {ty : FieldType} (known : c.Known ty) : SoundCode c (objectType c ty) := by
  induction ty with
  | scalar kind => simp [objectType]
  | string => simp [objectType]
  | vector elem ih => simpa [objectType] using ih known
  | named id =>
    have listed : Listed c id := known
    unfold objectType
    split <;> simpa

theorem sound_structAccessor {f : StructField} (known : c.Known f.type)
    (placement : Placement Double) : SoundDraft c (structAccessor c f placement) := by
  unfold structAccessor
  cases hit : struct? c f.type with
  | some id => simp [listed_of_struct? hit]
  | none => simp [sound_objectType known]

theorem sound_structFieldWrite (f : StructField) (placement : Placement Double) :
    SoundDraft c (structFieldWrite c f placement) := by
  unfold structFieldWrite
  cases hit : struct? c f.type with
  | some id => split <;> simp [listed_of_struct? hit]
  | none => split <;> simp

/-! ## Fields of tables -/

/-- A reader of elements whose texts can be written. -/
structure ElementReader.Sound (c : Catalog) (reader : ElementReader) : Prop where
  type : SoundCode c reader.type
  read : ∀ place, SoundCode c (reader.read place)

theorem sound_stringReader : stringReader.Sound c :=
  ⟨by simp [stringReader], by simp [stringReader]⟩

theorem sound_elementReader {elem : FieldType} (known : c.Known elem) (layouts : Layouts) :
    (elementReader c layouts elem).Sound c := by
  unfold elementReader
  split
  · exact ⟨sound_objectType known, by simp⟩
  · have listed : Listed c _ := known
    split
    · exact ⟨by simpa, by simpa⟩
    · exact ⟨by simpa, by simpa⟩
    · exact sound_stringReader
  · exact sound_stringReader

/-- Accessors that can be written. -/
structure FieldAccess.Sound (c : Catalog) (access : FieldAccess) : Prop where
  accessors : SoundDraft c access.accessors
  value : SoundCode c access.value

theorem sound_vectorAccess {elem : FieldType} (known : c.Known elem) (layouts : Layouts)
    (name : String) (slot : Nat) : (vectorAccess c layouts name slot elem).Sound c := by
  have reader : (elementReader c layouts elem).Sound c := sound_elementReader known layouts
  exact ⟨by simp [vectorAccess, accessor, reader.type, reader.read], by simp [vectorAccess]⟩

theorem sound_objectAccess {id : Nat} (listed : Listed c id) :
    (objectAccess name slot id place).Sound c :=
  ⟨by simpa [objectAccess, accessor], by simp [objectAccess]⟩

theorem sound_unionAccess {id : Nat} (listed : Listed c id)
    (variants : ∀ alt ∈ union.variants, Listed c alt.table) :
    (unionAccess name slot typeSlot id union).Sound c :=
  ⟨by simpa [unionAccess, accessor, listed] using variants, by simpa [unionAccess]⟩

/-- A field of a table can be written: what is no scalar is a string, a vector, a struct, a table
or a union with a slot for its tag. -/
theorem sound_fieldAccess (layouts : Layouts) (t : Entry) {f : TableField} (closed : c.Closed)
    (isMember : IsMember c f.type) (tagged : f.typeSlot.isSome = true ↔ IsUnion c f.type) :
    (fieldAccess c layouts t f).Sound c := by
  have known := isMember.known
  unfold fieldAccess
  generalize f.type = ty at *
  cases scalar : c.scalar? ty with
  | some kind => exact ⟨by simp [accessor, sound_objectType known], by simp⟩
  | none =>
    cases ty with
    | scalar kind => cases scalar
    | string => exact ⟨by simp [accessor], by simp⟩
    | vector elem =>
      have isKnown : c.Known elem := known
      exact sound_vectorAccess isKnown layouts _ _
    | named id =>
      rcases known with ⟨e, stands⟩
      have body := Catalog.body?_of_entry? stands rfl
      cases has : e.body with
      | struct _ =>
        simp only [body, has]
        exact sound_objectAccess ⟨e, stands⟩
      | table _ =>
        simp only [body, has]
        exact sound_objectAccess ⟨e, stands⟩
      | union union =>
        rw [has] at body
        have isUnion : IsUnion c (.named id) := ⟨id, rfl, Catalog.kind?_of_body? body⟩
        rcases Option.isSome_iff_exists.mp (tagged.mpr isUnion) with ⟨slot, typeSlot⟩
        simp only [body, typeSlot]
        cases closed.body body with
        | union isTable =>
          exact sound_unionAccess ⟨e, stands⟩ fun alt mem => listed_of_isTable (isTable alt mem)
      | enum enum => grind [scalar?]
      | service service =>
        rw [has] at body
        exact absurd (Catalog.kind?_of_body? body) isMember.not_service

theorem sound_vectorExpr {elem : FieldType} (known : c.Known elem) (layouts : Layouts)
    (v : String) : SoundCode c (vectorExpr c layouts elem v) := by
  unfold vectorExpr
  split
  · simp
  · simp
  · have listed : Listed c _ := known
    split <;> simp [listed]
  · simp

theorem sound_childExpr {ty : FieldType} (known : c.Known ty) (layouts : Layouts) (v : String) :
    SoundCode c (childExpr c layouts ty v) := by
  cases ty with
  | vector elem =>
    have isKnown : c.Known elem := known
    exact sound_vectorExpr isKnown layouts v
  | named id =>
    have listed : Listed c _ := known
    simpa [childExpr]
  | _ => simp [childExpr]

theorem sound_slotWrite {write : Catalog.SlotWrite} (known : c.Known write.field.type) :
    (slotWrite c write).Sound c := by
  simp only [slotWrite]
  split
  next part is =>
    rw [is] at known
    have listed : Listed c _ := known
    simpa
  next =>
    split
    · simp
    · split
      next id hit => simp [listed_of_struct? hit]
      next => simp

/-! ## Tables -/

section

variable {t : Catalog.TableType} (layouts : Layouts)

theorem sound_tableClass (e : Entry) {live : List TableField}
    (fields : ∀ f ∈ live, (fieldAccess c layouts e f).Sound c) :
    SoundDraft c (tableClass c layouts e live) := by
  have accessors : ∀ f ∈ live, SoundDraft c (fieldAccess c layouts e f).accessors :=
    fun f mem => (fields f mem).accessors
  have values : ∀ f ∈ live, SoundCode c (fieldAccess c layouts e f).value :=
    fun f mem => (fields f mem).value
  simpa [tableClass] using ⟨accessors, values⟩

theorem sound_tableInterface (name : String) {live : List TableField}
    (known : ∀ f ∈ live, c.Known f.type) : SoundDraft c (tableInterface c name live) := by
  have types : ∀ f ∈ live, SoundCode c (objectType c f.type) :=
    fun f mem => sound_objectType (known f mem)
  simpa [tableInterface] using types

theorem sound_tableEncoder (name : String) {live : List TableField}
    (known : ∀ f ∈ live, c.Known f.type) (written : ∀ f ∈ t.fields, c.Known f.type) :
    SoundDraft c (tableEncoder c layouts name t live) := by
  have children : ∀ f ∈ live, ∀ v, SoundCode c (childExpr c layouts f.type v) :=
    fun f mem v => sound_childExpr (known f mem) layouts v
  have writes : ∀ write ∈ t.writeOrder c, (slotWrite c write).Sound c :=
    fun write mem => sound_slotWrite (written _ (Catalog.field_of_mem_writeOrder mem).1)
  simpa [tableEncoder] using ⟨fun f mem _ => children f mem _, writes⟩

theorem sound_tableModule (e : Entry) (closed : c.Closed)
    (isMember : ∀ f ∈ t.fields, IsMember c f.type)
    (tagged : ∀ f ∈ t.fields, f.typeSlot.isSome = true ↔ IsUnion c f.type) :
    SoundDraft c (tableModule c layouts e t) := by
  have known : ∀ f ∈ t.fields, c.Known f.type := fun f mem => (isMember f mem).known
  have live {f : TableField} (mem : f ∈ t.fields.filter fun f => !f.deprecated) : f ∈ t.fields :=
    List.mem_of_mem_filter mem
  have shown := sound_tableClass layouts e fun f mem =>
    sound_fieldAccess layouts e closed (isMember f (live mem)) (tagged f (live mem))
  have plain := sound_tableInterface e.name fun f mem => known f (live mem)
  have encoder := sound_tableEncoder layouts e.name (fun f mem => known f (live mem)) known
  simp [tableModule, textConstant, tableSerializers, shown, plain, encoder]

end

/-! ## Modules -/

theorem sound_structModule (e : Entry) (known : ∀ f ∈ ty.fields, c.Known f.type)
    (layouts : Layouts) : SoundDraft c (structModule c layouts e ty) := by
  have types : ∀ f ∈ ty.fields, SoundCode c (objectType c f.type) :=
    fun f mem => sound_objectType (known f mem)
  have accessors : ∀ f placement, (f, placement) ∈ ty.fields.zip (layouts.of e.id).fields →
      SoundDraft c (structAccessor c f placement) :=
    fun f placement mem => sound_structAccessor (known f (List.of_mem_zip mem).1) placement
  simpa [structModule, structClass, sound_structFieldWrite] using ⟨accessors, types⟩

theorem sound_enumModule (e : Entry) (ty : Catalog.EnumType) : SoundDraft c (enumModule e ty) := by
  unfold enumModule enumDecl
  split <;> simp [enumValues]

theorem sound_unionModule (e : Entry) (listed : ∀ alt ∈ ty.variants, Listed c alt.table) :
    SoundDraft c (unionModule e ty) := by
  have accessors : SoundCode c
      (List.intercalate [.code " | "] (ty.variants.map fun alt => [.entry "" alt.table ""])) :=
    soundCode_intercalate (by simp) (by simpa using listed)
  have objects : ∀ alt i, (alt, i) ∈ ty.variants.zipIdx → Listed c alt.table :=
    fun alt i mem => listed alt (List.fst_mem_of_mem_zipIdx mem)
  simpa [unionModule, unionObjects, accessors] using ⟨objects, listed⟩

theorem sound_serviceModule (e : Entry)
    (listed : ∀ method ∈ ty.methods, Listed c method.request ∧ Listed c method.response) :
    SoundDraft c (serviceModule e ty) := by
  simpa [serviceModule, methodDefinition, clientMethod, handlerMember, handlerRegistration,
    signature, codecExpr, apply_ite (SoundCode c)] using listed

theorem sound_entryDraft (closed : c.Closed) (mem : e ∈ c.entries) (layouts : Layouts) :
    SoundDraft c (entryDraft c layouts e) := by
  have body := closed.bodies e mem
  unfold entryDraft
  generalize e.body = declared at body
  cases body with
  | enum ty => exact sound_enumModule e ty
  | union isTable => exact sound_unionModule e fun alt mem => listed_of_isTable (isTable alt mem)
  | struct isInline => exact sound_structModule e (fun f mem => (isInline f mem).known) layouts
  | table isMember tagged => exact sound_tableModule layouts e closed isMember tagged
  | service isTable =>
    refine sound_serviceModule e fun method mem => ?_
    exact ⟨listed_of_isTable (isTable method mem).1, listed_of_isTable (isTable method mem).2⟩

theorem sound_moduleDraft (closed : c.Closed) {group : Catalog.Module} (mem : group ∈ c.modules) :
    SoundDraft c (moduleDraft c group) := by
  rw [moduleDraft, soundDraft_flatMap]
  intro id listed
  have fits := closed.listed group mem id listed
  have stands : c.entry? id = some c.entries[id] := List.getElem?_eq_getElem fits
  rw [stands]
  exact sound_entryDraft closed (List.getElem_mem fits) _

end Emit

end FlatSchema
