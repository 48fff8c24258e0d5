import FlatSchema.Proofs.SlotRoundTrip
import FlatSchema.Proofs.VectorRoundTrip
import Mathlib.Data.List.Nodup
import Mathlib.Data.List.Pairwise

/-!
# Tables are read as they are written

A reader finds what each slot of a table has noted, if the table has no more
slots than a vtable can index and its inline part is no longer than a vtable
can measure.  What the slot leads to then reads as the passage says of its
field, and fields that the reader alone knows read as missing.
-/

namespace FlatSchema

open Encode Decode
open Buffer (ofList)
open Catalog (FieldReads SoundTable TableField TableType scalarOf_eq_ok)
open Decode (readField readTable slotEntry)

variable {c : Catalog}

open Builder

/-! ## The order of writing -/

namespace Catalog

variable {write : SlotWrite}

theorem TableField.slot_mem_slots (fld : TableField) : fld.slot ∈ fld.slots := by
  rw [TableField.slots]
  cases fld.typeSlot <;> simp

theorem value_mem_writeOrder {t : TableType} (mem : fld ∈ t.fields)
    (live : fld.deprecated = false) :
    ⟨fld, .value, fld.slot, c.inlineWidth fld.type⟩ ∈ t.writeOrder c := by
  grind [mem_writeOrder, TableField.writes]

/-- A field that is not deprecated writes the tag of its variant, if it has one. -/
theorem type_mem_writeOrder {t : TableType} (mem : fld ∈ t.fields)
    (live : fld.deprecated = false) (typed : fld.typeSlot = some slot) :
    ⟨fld, .type, slot, 1⟩ ∈ t.writeOrder c := by
  grind [mem_writeOrder, TableField.writes]

theorem sublist_slots_writes (c : Catalog) (fs : List TableField) :
    ((fs.flatMap (TableField.writes c)).map SlotWrite.slot).Sublist
      (fs.flatMap TableField.slots) := by
  induction fs with
  | nil => exact List.Sublist.refl _
  | cons hd rest ih =>
    rw [List.flatMap_cons, List.map_append, map_slot_writes]
    apply List.Sublist.append _ ih
    split
    · exact List.nil_sublist _
    · exact List.Sublist.refl _

/-- No slot is written twice. -/
theorem SoundTable.nodup_writeOrder (sound : SoundTable c t) :
    ((t.writeOrder c).map SlotWrite.slot).Nodup := by
  have sorted := (List.mergeSort_perm (t.fields.flatMap (TableField.writes c))
    fun left right => right.width ≤ left.width).map SlotWrite.slot
  exact sorted.nodup_iff.mpr (sound.nodup_slots.sublist (sublist_slots_writes c t.fields))

theorem SoundTable.slot_lt_of_mem_writeOrder (sound : SoundTable c t)
    (mem : write ∈ t.writeOrder c) : write.slot < t.slotCount := by
  apply sound.slot_lt
  apply (sublist_slots_writes c t.fields).subset
  apply List.mem_map_of_mem
  rw [TableType.writeOrder, List.mem_mergeSort] at mem
  exact mem

theorem SoundTable.slot_not_written (sound : SoundTable c t)
    (mem : fld ∈ t.fields) (deprecated : fld.deprecated = true) :
    fld.slot ∉ (t.writeOrder c).map SlotWrite.slot := by
  intro listed
  rcases List.mem_map.mp listed with ⟨write, raw, slot_eq⟩
  rcases field_of_mem_writeOrder raw with ⟨own, live, inside⟩
  have different : fld ≠ write.field := by
    grind
  have symmetric : Std.Symm (Function.onFun List.Disjoint TableField.slots) :=
    ⟨fun _ _ apart _ snd fst => apart fst snd⟩
  have apart := (List.nodup_flatMap.mp sound.nodup_slots).2.forall mem own different
  rw [slot_eq] at inside
  exact apart fld.slot_mem_slots inside

end Catalog

/-! ## Slots of a table that stands -/

namespace Builder

theorem Grows.inlineFits (grows : Grows forced pre post) (fits : post.InlineFits) :
    pre.InlineFits := by
  intro words vt mem
  exact fits words vt (grows.isPrefix.subset mem)

end Builder

/-- A reader of the table at a distance finds what its slots have noted. -/
structure Indexed (bs : List UInt8) (obj : Int) (slots : List Int) : Prop where
  lt_object : ∀ noted ∈ slots, noted < obj
  fieldOffset_eq :
    ∀ (i : Nat) (noted : Int),
      slots[i]?.getD 0 = noted →
        (ofList bs).fieldOffset (spot bs obj) (slotEntry i : Int) =
          .ok (if noted = 0 then 0 else (obj - noted).toNat)

theorem Builder.ClosedTable.indexed {slots : List Int}
    (closed : ClosedTable pre slots obj post) (fits : post.InlineFits)
    (short : slots.length ≤ 32765)
    (inside : ∀ noted ∈ slots, noted ≠ 0 → pre.objectStart < noted ∧ noted ≤ pre.written.length)
    (suffix : post.written <:+ later) : Indexed later obj slots := by
  rcases closed.refers with ⟨vt, mem, refers⟩
  have lt_object := closed.lt_object
  have object_le := closed.object_le
  have room := length_written_le post
  have limit := closed.valid.capacity_lt
  have size : obj - pre.objectStart < 65536 := by
    apply fits _ vt mem
    rfl
  have stands := closed.vtablesStand _ vt mem
  have vtable_le := stands.distance_le
  have vtable_ge := stands.le_distance
  refine ⟨?_, ?_⟩
  · grind
  · intro i noted hit
    have used := Build.length_usedSlots_le slots
    refine fieldOffset_eq (refers.mono suffix) (stands.mono suffix) (by omega) (by omega)
      (by omega) ?_ hit
    grind

/-- The field of a slot that is not empty stands where the slot says. -/
theorem Indexed.fieldOffset_filled {slots : List Int} (indexed : Indexed bs obj slots)
    (hit : slots[i]? = some noted) (full : noted ≠ 0) :
    ∃ off : Nat,
      (ofList bs).fieldOffset (spot bs obj) (slotEntry i : Int) = .ok off ∧
        off ≠ 0 ∧ spot bs obj + Extent.ofInt (off : Int) = spot bs noted := by
  have below := indexed.lt_object noted (List.mem_of_getElem? hit)
  refine ⟨(obj - noted).toNat, ?_, by omega, ?_⟩
  · rw [indexed.fieldOffset_eq i noted (by rw [hit]; rfl), if_neg full]
  · rw [Extent.ofInt_int, spot, spot]
    omega

theorem Indexed.fieldOffset_empty {slots : List Int} (indexed : Indexed bs obj slots)
    (hit : slots[i]?.getD 0 = 0) :
    (ofList bs).fieldOffset (spot bs obj) (slotEntry i : Int) = .ok 0 := by
  rw [indexed.fieldOffset_eq i 0 hit, if_pos rfl]

/-! ## Fields -/

section

variable {c : Catalog} {fs : Fields} {kids : List (String × Child Int)}
  {bs : List UInt8} {obj noted : Int} {slots : List Int} {fld : TableField}
  {readTable : TableType → Int → Except RecordError Value}

variable (indexed : Indexed bs obj slots)
include indexed

/-- A field without anything stored reads as its default or as null. -/
theorem readField_empty
    (hit : slots[fld.slot]?.getD 0 = 0) (isScalar : c.scalarOf fld.type = .ok kind) :
    readField (ofList bs) c readTable (spot bs obj) fld = .ok (some (fld.normalAbsent c)) := by
  rw [readField, indexed.fieldOffset_empty hit, TableField.normalAbsent, scalarOf_eq_ok isScalar]
  cases kind <;> simp only [ofWire, isScalar, bind, Except.bind, if_true] <;> rfl

theorem readField_scalar (hit : slots[fld.slot]? = some noted) (full : noted ≠ 0)
    (isScalar : c.scalarOf fld.type = .ok (some kind))
    (enc : kind.encode? actual = some chunk) (stands : Stands bs noted chunk) :
    readField (Buffer.ofList bs) c readTable (spot bs obj) fld =
      .ok (some (.scalar (kind.convert actual))) := by
  rcases indexed.fieldOffset_filled hit full with ⟨off, offset_eq, positive, pos⟩
  rw [readField, offset_eq]
  simp only [ofWire, isScalar, bind, Except.bind, if_neg positive, pos,
    readScalar, stands.readScalar enc]
  rfl

theorem readField_struct (hit : slots[fld.slot]? = some noted) (full : noted ≠ 0)
    (notScalar : c.scalarOf fld.type = .ok none)
    (isStruct : c.structOf fld.type = .ok (some (e, struct)))
    (reads :
      readStruct (Buffer.ofList bs) c c.entries.length struct (spot bs noted) = .ok v) :
    readField (Buffer.ofList bs) c readTable (spot bs obj) fld = .ok (some v) := by
  rcases indexed.fieldOffset_filled hit full with ⟨off, offset_eq, positive, pos⟩
  rcases Catalog.structOf_eq_some isStruct with ⟨id, type_eq, body⟩
  rcases Catalog.entryOf_of_body body with ⟨own, known, own_body⟩
  rw [type_eq] at notScalar
  rw [readField, offset_eq]
  simp only [ofWire, type_eq, notScalar, bind, Except.bind, if_neg positive, pos,
    known, own_body, reads]
  rfl

theorem readTag (hit : slots[slot]? = some noted)
    (holds : TagHolds kids bs fld noted) (small : tagOf kids fld < 256) :
    (Buffer.ofList bs).fieldOffset (spot bs obj) (slotEntry slot : Int) = .ok 0 ∧
        tagOf kids fld = 0 ∨
      ∃ off : Nat,
        (Buffer.ofList bs).fieldOffset (spot bs obj) (slotEntry slot : Int) = .ok off ∧
          off ≠ 0 ∧
          (Buffer.ofList bs).readNat 1 (spot bs obj + Extent.ofInt (off : Int)) =
            .ok (tagOf kids fld) := by
  rcases holds with ⟨rfl, zero⟩ | ⟨full, stands⟩
  · exact .inl ⟨indexed.fieldOffset_empty (congrArg (Option.getD · 0) hit), zero⟩
  · rcases indexed.fieldOffset_filled hit full with ⟨off, offset_eq, positive, pos⟩
    have byte : [UInt8.ofNat (tagOf kids fld)] = littleEndian 1 (tagOf kids fld) := by
      rw [littleEndian, littleEndian, Nat.mod_eq_of_lt small]
    rw [byte] at stands
    refine .inr ⟨off, offset_eq, positive, ?_⟩
    rw [pos]
    exact stands.readNat (by exact small)

theorem readField_referred (hit : slots[fld.slot]? = some noted) (full : noted ≠ 0)
    (notScalar : c.scalarOf fld.type = .ok none) (referred : c.Referred fld.type)
    (small : tagOf kids fld < 256)
    (tagged :
      ∀ id union, fld.type = .named id → c.body? id = some (.union union) →
        ∃ slot tag, fld.typeSlot = some slot ∧ slots[slot]? = some tag ∧ TagHolds kids bs fld tag) :
    readField (Buffer.ofList bs) c readTable (spot bs obj) fld =
      Except.map some
        (readReferred (Buffer.ofList bs) c readTable fld.type (tagOf kids fld)
          (spot bs noted)) := by
  rcases indexed.fieldOffset_filled hit full with ⟨off, offset_eq, positive, pos⟩
  rw [readField, offset_eq]
  simp only [ofWire, notScalar, bind, Except.bind, if_neg positive, pos]
  cases type_eq : fld.type with
  | scalar kind =>
    rw [type_eq] at referred
    exact referred.elim
  | string =>
    simp only [readReferred, ofWire, bind, Except.bind]
    cases (Buffer.ofList bs).readText (spot bs noted) <;> rfl
  | vector elem => rfl
  | named id =>
    rw [type_eq] at referred
    rcases referred with ⟨t, body⟩ | ⟨union, body⟩
    · rcases Catalog.entryOf_of_body body with ⟨own, known, own_body⟩
      simp only [known, own_body, readReferred, body, ofWire, bind, Except.bind]
      cases (Buffer.ofList bs).follow (spot bs noted) <;> rfl
    · rcases Catalog.entryOf_of_body body with ⟨own, known, own_body⟩
      rcases tagged id union type_eq body with ⟨slot, tag, slot_eq, noted_tag, holds⟩
      rcases readTag indexed noted_tag holds small with
        ⟨empty, zero⟩ | ⟨gap, stored, distant, read⟩
      · simp only [known, own_body, readReferred, body, slot_eq, readUnion, empty, zero,
          ofWire, bind, Except.bind, if_true]
        rfl
      · simp only [known, own_body, readReferred, body, slot_eq, readUnion, stored, read,
          ofWire, bind, Except.bind, if_neg distant]
        rfl

end

/-! ## Whole tables -/

/-- What was written for a field that is stored by reference leads to its value. -/
def ChildHolds (p : Passage) (fs : Fields) (kids : List (String × Child Int)) (bs : List UInt8)
    (fld : TableField) : Prop :=
  match kids.lookup fld.name with
  | some child =>
    child.tag < 256 ∧
      ∃ v,
        fs.present? fld.name = some v ∧
          Leads p bs fld.type v child.offset child.tag
  | none => fs.present? fld.name = none ∨ ¬p.writer.Referred fld.type

section

variable {p : Passage} {fs : Fields} {kids : List (String × Child Int)}
  {t : TableType} {raw bs : List UInt8} {obj : Int} {slots : List Int}
  {depth : Nat}

theorem Catalog.IsMember.referred (isMember : c.IsMember ty)
    (notScalar : c.scalarOf ty = .ok none) (notStruct : c.structOf ty = .ok none) :
    c.Referred ty := by
  cases isMember with
  | element isElement =>
    cases ty with
    | scalar kind => cases notScalar
    | string => trivial
    | vector elem => trivial
    | named id => exact .inl (isElement.exists_table notScalar notStruct)
  | vector => trivial
  | union isUnion =>
    rcases isUnion with ⟨id, rfl, isUnion⟩
    rcases Catalog.exists_union isUnion with ⟨e, union, stands, body⟩
    exact .inr ⟨union, Catalog.body?_of_entry? stands body⟩

/-- A type that is stored by reference for a writer is so for a reader. -/
theorem Catalog.Extends.referred {old : Catalog} (extended : old.Extends new)
    (referred : old.Referred ty) : new.Referred ty := by
  cases ty with
  | named id =>
    rcases referred with ⟨t, body⟩ | ⟨union, body⟩
    · rcases extended.exists_table body with ⟨grown, _, hit, _⟩
      exact .inl ⟨grown, hit⟩
    · exact .inr ⟨union, extended.body_eq body fun _ => by simp⟩
  | _ => exact referred

theorem readField_spec (sound : SoundTable p.writer t)
    (indexed : Indexed bs obj slots) (small : obj < 2147483648) (deep : obj ≤ depth)
    (suffix : raw <:+ bs) (behind : (raw.length : Int) < obj)
    (holds :
      ∀ write ∈ t.writeOrder p.writer, ∃ noted,
        slots[write.slot]? = some noted ∧ SlotHolds p fs kids bs write noted)
    (mem : fld ∈ t.fields) (live : fld.deprecated = false) (child : ChildHolds p fs kids raw fld) :
    ∃ res,
      readField (ofList bs) p.reader (readTable (ofList bs) p.reader depth) (spot bs obj) fld =
        .ok (some res) ∧ p.FieldHolds fs fld res := by
  have v : ∃ noted, slots[fld.slot]? = some noted ∧ ValueHolds p fs kids bs fld noted := by
    exact holds _ (Catalog.value_mem_writeOrder mem live)
  have tagged : ∀ slot, fld.typeSlot = some slot → ∃ tag, slots[slot]? = some tag ∧
      TagHolds kids bs fld tag := by
    intro slot typed
    exact holds ⟨fld, .type, slot, 1⟩ (Catalog.type_mem_writeOrder mem live typed)
  rcases v with ⟨noted, hit, holds⟩
  have scalarOf_eq := p.extended.scalarOf_eq fld.type
  -- A field that is missing and not a scalar reads as null.
  have absent :
      noted = 0 → p.writer.scalarOf fld.type = .ok none → fs.present? fld.name = none →
        ∃ res,
          readField (ofList bs) p.reader (readTable (ofList bs) p.reader depth) (spot bs obj)
              fld = .ok (some res) ∧ p.FieldHolds fs fld res := by
    rintro rfl notScalar missing
    refine ⟨.null, ?_, ?_⟩
    · rw [readField_empty indexed (congrArg (Option.getD · 0) hit) (scalarOf_eq.trans notScalar),
        TableField.normalAbsent, scalarOf_eq_ok (scalarOf_eq.trans notScalar)]
    · simp only [Passage.FieldHolds, FieldReads, scalarOf_eq_ok notScalar, missing]
  cases holds with
  | default isScalar _ own =>
    refine ⟨_, ?_, own⟩
    rw [readField_empty indexed (congrArg (Option.getD · 0) hit) (scalarOf_eq.trans isScalar),
      TableField.normalAbsent, scalarOf_eq_ok (scalarOf_eq.trans isScalar)]
  | scalar isScalar _ enc own full stands =>
    exact ⟨_, readField_scalar indexed hit full (scalarOf_eq.trans isScalar) enc stands, own⟩
  | absentStruct notScalar isStruct missing => exact absent rfl notScalar missing
  | struct notScalar isStruct _ _ own full reads =>
    rcases p.extended.structOf_some isStruct with ⟨other, isAlso⟩
    refine ⟨_, readField_struct indexed hit full (scalarOf_eq.trans notScalar) isAlso ?_, own⟩
    rw [p.extended.readStruct_eq, p.extended.length_eq]
    exact reads bs List.suffix_rfl
  | absentChild notScalar notStruct missing =>
    grind [ChildHolds, Catalog.IsMember.referred, SoundTable.isMember]
  | @child target forward _ notScalar notStruct known full gap stands =>
    have tag : tagOf kids fld = target.tag := by
      rw [tagOf, known]
      rfl
    rw [ChildHolds, known] at child
    rcases child with ⟨tag_lt, v, here, leads⟩
    have nearer : target.offset < depth :=
      calc
        target.offset ≤ raw.length := leads.offset_le
        _ < obj := behind
        _ ≤ depth := deep
    have positive := leads.positive
    have below := indexed.lt_object noted (List.mem_of_getElem? hit)
    have referred := (sound.isMember mem).referred notScalar notStruct
    rcases leads.reads bs suffix depth nearer noted forward stands gap (by omega) with
      ⟨res, read, held⟩
    refine ⟨res, ?_, ?_⟩
    · rw [readField_referred indexed hit full (scalarOf_eq.trans notScalar)
        (p.extended.referred referred) (by rw [tag]; exact tag_lt) ?_, tag, read]
      · rfl
      · intro id union type_eq body
        rw [type_eq] at referred
        rcases referred with ⟨inner, own⟩ | ⟨_, own⟩
        · grind [Catalog.Extends.exists_table, Passage.extended]
        · rcases sound.exists_typeSlot mem ⟨id, type_eq, Catalog.kind?_of_body? own⟩ with
            ⟨slot, typed⟩
          grind
    · simp only [Passage.FieldHolds, FieldReads, scalarOf_eq_ok notScalar, here]
      exact held

/-- A field that the reader alone knows reads as missing. -/
theorem readField_extra (sound : SoundTable p.reader t)
    (indexed : Indexed bs obj slots) (mem : fld ∈ t.fields) (beyond : slots.length ≤ fld.slot)
    (readTable : TableType → Int → Except RecordError Value) :
    readField (ofList bs) p.reader readTable (spot bs obj) fld =
      .ok (some (fld.normalAbsent p.reader)) := by
  refine readField_empty indexed ?_ (sound.isMember mem).known.scalarOf_eq
  grind

theorem readTable_spec {id : Nat} {grown : TableType} (body : p.writer.body? id = some (.table t))
    (grownBody : p.reader.body? id = some (.table grown))
    (fields_eq : grown.fields = t.fields ++ extra)
    (each :
      ∀ fld ∈ t.fields, fld.deprecated = false →
        ∃ res,
          readField (ofList bs) p.reader (readTable (ofList bs) p.reader depth) (spot bs obj)
              fld = .ok (some res) ∧ p.FieldHolds fs fld res)
    (others :
      ∀ fld ∈ extra, fld.deprecated = false →
        readField (ofList bs) p.reader (readTable (ofList bs) p.reader depth) (spot bs obj)
            fld = .ok (some (fld.normalAbsent p.reader))) :
    ∃ res, readTable (ofList bs) p.reader (depth + 1) grown (spot bs obj) = .ok res ∧
      p.Reads (.named id) (.record fs) res := by
  have each :
      ∀ fld, ∃ res, fld ∈ grown.fields → fld.deprecated = false →
        readField (ofList bs) p.reader (readTable (ofList bs) p.reader depth) (spot bs obj)
            fld = .ok (some res) ∧ (fld ∈ t.fields → p.FieldHolds fs fld res) ∧
          (fld ∈ extra → res = fld.normalAbsent p.reader) := by
    intro fld
    by_cases own : fld ∈ t.fields ∧ fld.deprecated = false
    · grind
    grind
  choose res holds using each
  have live :
      ∀ fld ∈ grown.fields.filter (fun fld => !fld.deprecated),
        (do
          let v ← readField (ofList bs) p.reader
            (readTable (ofList bs) p.reader depth) (spot bs obj) fld
          return v.map fun v => (fld.name, v)) = Except.ok (some (fld.name, res fld)) := by
    intro fld mem
    rcases List.mem_filter.mp mem with ⟨own, live⟩
    simp_all
  refine ⟨_, ?_, p.table res body grownBody fields_eq ?_ ?_⟩
  · rw [readTable]
    simp only [mapM_eq_ok live]
    exact congrArg (fun read => Except.ok (Value.record read)) (by simp)
  · intro fld mem live
    have listed : fld ∈ grown.fields := by
      grind
    exact (holds fld listed live).2.1 mem
  grind

end

end FlatSchema
