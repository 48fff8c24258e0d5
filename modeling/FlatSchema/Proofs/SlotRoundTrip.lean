import FlatSchema.Proofs.Passage
import FlatSchema.Proofs.TableReading

/-!
# The slots of a table

Each slot of a table is written once.  `TagHolds` and `ValueHolds` say what a
slot then leads to: nothing where the field reads as its default or as null,
and else bytes that read back as the field.  What holds of a slot goes on
holding while others are written.
-/

namespace FlatSchema

open Catalog (SlotWrite)
open Encode (ofBuild Child ends_ofBuild ends_liftM_bind AtLimit atLimit_of_isFull writeSlot placeOf)

open Catalog (SlotWrite TableField)

variable {pre post opened : Builder Int} {res : Unit} {passed : List SlotWrite}

open Builder

/-- The room that a slot takes: a byte for a tag, that of a value in place, or a reference. -/
def Catalog.SlotWrite.cell (c : Catalog) (write : SlotWrite) : Storage Nat :=
  match write.part with
  | .type => ⟨1, 1⟩
  | .value => (c.storage? write.field.type).getD ⟨4, 4⟩

/-- Where what a slot takes ends, aligned, if it is written from an offset on. -/
def Catalog.SlotWrite.stop (c : Catalog) (off : Int) (write : SlotWrite) : Int :=
  off + -(off + (write.cell c).size) % (write.cell c).alignment + (write.cell c).size

/-- Some of the slots that have been passed were stored, one after another from an offset on, and
note where they end.  The others are empty. -/
structure Stored (c : Catalog) (start : Int) (passed stored : List SlotWrite) (slots : List Int)
    (stop : Int) : Prop where
  sublist : stored.Sublist passed
  skipped : ∀ write ∈ passed, write ∉ stored → slots[write.slot]? = some 0
  noted :
    ∀ before write, before ++ [write] <+: stored →
      slots[write.slot]? = some ((before ++ [write]).foldl (SlotWrite.stop c) start)
  stop_eq : stop = stored.foldl (SlotWrite.stop c) start

/-- The tag of a variant is stored in one byte, and only zero is left out. -/
theorem encode_tag :
    ∀ tag : Fin 256,
      ScalarKind.uint8.encode? (.number (Double.ofInt tag.val)) = some [UInt8.ofNat tag.val] ∧
        ((ScalarValue.number (Double.ofInt tag.val)).same (.number Double.zero) = true ↔
          tag.val = 0) := by
  decide +kernel

section

variable (p : Passage) (fs : Fields) (kids : List (String × Child Int))

/-- The tag of the child of a field, or zero. -/
def tagOf (f : TableField) : Nat :=
  ((kids.lookup f.name).map Encode.Child.tag).getD 0

/-- What the slot for the tag of a field has noted. -/
def TagHolds (bs : List UInt8) (f : TableField) (noted : Int) : Prop :=
  noted = 0 ∧ tagOf kids f = 0 ∨
    noted ≠ 0 ∧ Stands bs noted [UInt8.ofNat (tagOf kids f)]

/-- What the slot for the value of a field has noted. -/
inductive ValueHolds (bs : List UInt8) (f : Catalog.TableField) : Int → Prop where
  | default {kind : ScalarKind} (isScalar : p.writer.scalarOf f.type = .ok (some kind))
      (typed : ∀ v, fs.present? f.name = some v → p.writer.Typed f.type v)
      (holds : p.FieldHolds fs f (.scalar (f.default.toScalar kind))) : ValueHolds bs f 0
  | scalar {kind : ScalarKind} {actual : ScalarValue} {chunk : List UInt8} {noted : Int}
      (isScalar : p.writer.scalarOf f.type = .ok (some kind))
      (typed : ∀ v, fs.present? f.name = some v → p.writer.Typed f.type v)
      (enc : kind.encode? actual = some chunk)
      (holds : p.FieldHolds fs f (.scalar (kind.convert actual))) (full : noted ≠ 0)
      (stands : Stands bs noted chunk) : ValueHolds bs f noted
  | absentStruct {e : Catalog.Entry} {struct : Catalog.StructType}
      (notScalar : p.writer.scalarOf f.type = .ok none)
      (isStruct : p.writer.structOf f.type = .ok (some (e, struct)))
      (missing : fs.present? f.name = none) : ValueHolds bs f 0
  | struct {e : Catalog.Entry} {struct : Catalog.StructType} {v res : Value} {noted : Int}
      (notScalar : p.writer.scalarOf f.type = .ok none)
      (isStruct : p.writer.structOf f.type = .ok (some (e, struct)))
      (here : fs.present? f.name = some v) (typed : p.writer.Typed f.type v)
      (holds : p.FieldHolds fs f res) (full : noted ≠ 0)
      (reads :
        ∀ later, bs <:+ later →
          Decode.readStruct (Buffer.ofList later) p.writer p.writer.entries.length
              struct (spot later noted) = .ok res) : ValueHolds bs f noted
  | absentChild (notScalar : p.writer.scalarOf f.type = .ok none)
      (notStruct : p.writer.structOf f.type = .ok none) (missing : kids.lookup f.name = none) :
      ValueHolds bs f 0
  | child {child : Child Int} {forward : Nat} {noted : Int}
      (notScalar : p.writer.scalarOf f.type = .ok none)
      (notStruct : p.writer.structOf f.type = .ok none) (hit : kids.lookup f.name = some child)
      (full : noted ≠ 0) (gap : (forward : Int) = noted - child.offset)
      (stands : Stands bs noted (littleEndian 4 forward)) : ValueHolds bs f noted

/-- What the slot of a write has noted. -/
def SlotHolds (bs : List UInt8) (write : Catalog.SlotWrite) (noted : Int) : Prop :=
  match write.part with
  | .type => TagHolds kids bs write.field noted
  | .value => ValueHolds p fs kids bs write.field noted

end

variable {p : Passage} {fs : Fields} {kids : List (String × Child Int)}

/-- What a slot leads to stays when bytes are put in front. -/
theorem SlotHolds.mono (holds : SlotHolds p fs kids bs write noted) (suffix : bs <:+ later) :
    SlotHolds p fs kids later write noted := by
  unfold SlotHolds at holds ⊢
  split at holds
  · grind [Stands.mono, TagHolds]
  · cases holds with
    | default isScalar typed own => exact .default isScalar typed own
    | scalar isScalar typed enc own full stands =>
      exact .scalar isScalar typed enc own full (stands.mono suffix)
    | absentStruct notScalar isStruct missing => exact .absentStruct notScalar isStruct missing
    | struct notScalar isStruct here typed own full reads =>
      exact .struct notScalar isStruct here typed own full
        fun further further_suffix => reads further (suffix.trans further_suffix)
    | absentChild notScalar notStruct missing => exact .absentChild notScalar notStruct missing
    | child notScalar notStruct hit full gap stands =>
      exact .child notScalar notStruct hit full gap (stands.mono suffix)

/-! ## One slot -/

/-- A slot is left empty, or it notes what was written for it, and so much holds of either. -/
def Fills (pre : Builder Int) (i : Nat) (cell : Storage Nat) (holds : List UInt8 → Int → Prop)
    (post : Builder Int) : Prop :=
  holds post.written 0 ∧ pre = post ∨
    Notes pre i cell post ∧ holds post.written post.written.length

/-- What stops the writer of a slot that is at hand, if the default of the field can be stored and
the record has a value of its type: a limit. -/
def SlotHalts (c : Catalog) (fs : Fields) (pre : Builder Int) (write : SlotWrite)
    (err : RecordError) (post : Builder Int) : Prop :=
  pre.HasSlot write.slot →
    (∀ kind, c.scalar? write.field.type = some kind →
      ∃ bs, kind.encode? (write.field.default.toScalar kind) = some bs) →
    (∀ v, fs.present? write.field.name = some v → c.Typed write.field.type v) →
    AtLimit err post

theorem addScalarSlot_ends (i : Nat)
    (bounded : pre.Bounded) (forced_eq : pre.forceDefaults = p.forced)
    (isScalar : p.writer.scalarOf f.type = .ok (some kind))
    (typed : ∀ v, fs.present? f.name = some v → p.writer.Typed f.type v)
    (holds :
      p.FieldHolds fs f (.scalar (kind.slotForm p.forced (f.default.toScalar kind) actual))) :
    Ensures (ofBuild (Build.addFieldScalar (i : Int) kind actual (f.default.toScalar kind)))
      pre (fun _ post => Fills pre i kind.storage (ValueHolds p fs kids · f ·) post)
      fun err post =>
        pre.HasSlot i → (∃ bs, kind.encode? actual = some bs) → AtLimit err post := by
  refine (ends_ofBuild (Build.addFieldScalar_ends i kind actual _ bounded)
    fun _ _ failed has stored => ?_).imp ?_
  · rcases failed with none | outside | full
    · grind
    · exact (outside has).elim
    · exact atLimit_of_isFull full.1
  rw [ScalarKind.slotForm, ← forced_eq] at holds
  rintro _ post (⟨same, unchanged⟩ | ⟨different, notes, chunk, enc, stands⟩)
  · rw [if_pos same] at holds
    exact .inl ⟨.default isScalar typed holds, unchanged⟩
  · rw [different] at holds
    have longer := notes.length_pos bounded
    exact .inr ⟨notes, .scalar isScalar typed enc holds (by omega) stands⟩

section

variable {write : Catalog.SlotWrite}

theorem writeScalarSlot_ends {e : Catalog.Entry}
    (bounded : pre.Bounded) (forced_eq : pre.forceDefaults = p.forced)
    (isScalar : p.writer.scalarOf write.field.type = .ok (some kind)) :
    Ensures
      (match fs.present? write.field.name with
      | some v => do
          let actual ←
            (liftM (Encode.normalize kind (placeOf e.fullName write.field.name)
              (some v)) : Encode Int ScalarValue)
          ofBuild
            (Build.addFieldScalar (Extent.ofInt write.slot) kind actual
              (write.field.default.toScalar kind))
      | none =>
        ofBuild
          (Build.addFieldScalar (Extent.ofInt write.slot) kind
            (write.field.default.toScalar kind) (write.field.default.toScalar kind))) pre
      (fun _ post => Fills pre write.slot kind.storage (ValueHolds p fs kids · write.field ·) post)
      (SlotHalts p.writer fs pre write) := by
  have known := Catalog.scalarOf_eq_ok isScalar
  split
  · next v here =>
      refine ends_liftM_bind (fun err refused _ _ typed => ?_) fun actual normalized => ?_
      · grind [Catalog.Typed.exists_scalar, Encode.normalize_of_takes]
      rcases Encode.normalize_spec normalized with ⟨given, ⟨⟩, rfl⟩
      refine (addScalarSlot_ends write.slot bounded forced_eq isScalar (fun v also => ?_) ?_).mono
        (fun _ _ halts has _ _ => halts has (Encode.exists_encode_coerce kind given))
        fun _ _ fills => fills
      · cases here.symm.trans also
        exact .scalar known (Encode.takes_of_normalize normalized)
      · simp only [Passage.FieldHolds, Catalog.FieldReads, known, here]
        exact ⟨given, rfl, rfl⟩
  · next missing =>
      refine (addScalarSlot_ends write.slot bounded forced_eq isScalar (fun v also => ?_) ?_).mono
        (fun _ _ halts has stores _ => halts has (stores kind known)) fun _ _ fills => fills
      · cases missing.symm.trans also
      · simp only [Passage.FieldHolds, Catalog.FieldReads, known, missing]

theorem writeStructSlot_ends {e inner : Catalog.Entry}
    (bounded : pre.Bounded) (notScalar : p.writer.scalarOf write.field.type = .ok none)
    (isStruct : p.writer.structOf write.field.type = .ok (some (inner, struct))) :
    Ensures
      (match fs.present? write.field.name with
      | some v => do
          let innerFs ←
            (liftM (Encode.asRecord (placeOf e.fullName write.field.name)
              (some v)) : Encode Int Fields)
          let off ← Encode.writeStruct p.writer inner struct innerFs
          ofBuild (Build.addFieldStruct (Extent.ofInt write.slot) off)
      | none => pure ()) pre
      (fun _ post =>
        Fills pre write.slot ⟨struct.size, struct.alignment⟩ (ValueHolds p fs kids · write.field ·)
          post) (SlotHalts p.writer fs pre write) := by
  rcases p.sound.structs with ⟨rank, structs⟩
  have soundStructs := fun id struct body => (structs id struct body).2
  rcases Catalog.structOf_eq_some isStruct with ⟨id, type_eq, body⟩
  split
  · next v here =>
      refine ends_liftM_bind (fun err refused _ _ typed => ?_) fun innerFs record => ?_
      · rcases (type_eq ▸ typed v here).exists_struct body with ⟨_, rfl, _⟩
        cases refused
      cases Encode.asRecord_eq_ok record
      refine (writeStruct_ends soundStructs body inner innerFs bounded).bind
        (fun _ _ halts _ _ typed => halts (type_eq ▸ typed _ here)) fun off mid all => ?_
      rcases all.written with ⟨n, chunk, padded, len, put, _, reads⟩
      refine (ends_ofBuild (Build.addFieldStruct_ends ⟨struct.size, struct.alignment⟩
        write.slot off bounded put padded len (Catalog.size_pos_of_sound soundStructs body))
        fun _ _ failed has _ _ => ?_).imp ?_
      · grind [StructWritten.offset_eq, Valid.offset_eq, Appends.valid]
      rintro _ post ⟨notes, tape⟩
      have holds :
          p.FieldHolds fs write.field (p.writer.normalForm (.named id) (.record innerFs)) := by
        simp only [Passage.FieldHolds, Catalog.FieldReads, Catalog.scalarOf_eq_ok notScalar, here]
        rw [type_eq]
        exact p.struct body innerFs
      have longer := notes.length_pos bounded
      refine .inr ⟨notes, .struct notScalar isStruct here (type_eq ▸ all.typed) holds (by omega) ?_⟩
      intro later suffix
      rw [tape] at suffix ⊢
      exact reads _ (structs id struct body).1 later _ (put.stands.left.mono suffix)
  · next missing => exact .pure (.inl ⟨.absentStruct notScalar isStruct missing, rfl⟩)

theorem writeChildSlot_ends (bounded : pre.Bounded) (range :
      ∀ name child, kids.lookup name = some child → 0 < child.offset ∧ child.offset ≤ pre.offset)
    (notScalar : p.writer.scalarOf write.field.type = .ok none)
    (notStruct : p.writer.structOf write.field.type = .ok none) :
    Ensures
      (ofBuild
        (Build.addFieldOffset (Extent.ofInt write.slot)
          (((kids.lookup write.field.name).map Encode.Child.offset).getD (Extent.ofInt 0)))) pre
      (fun _ post => Fills pre write.slot ⟨4, 4⟩ (ValueHolds p fs kids · write.field ·) post)
      (SlotHalts p.writer fs pre write) := by
  have ends := fun target (reached : target ≤ pre.offset) =>
    @ends_ofBuild _ _ _ (SlotHalts p.writer fs pre write) _ _ _
      (Build.addFieldOffset_ends write.slot target bounded) fun _ _ failed has _ _ => by
        grind [atLimit_of_isFull]
  cases hit : kids.lookup write.field.name with
  | none =>
    have first := bounded.offset_eq
    refine (ends 0 (by omega)).imp ?_
    rintro _ post (⟨_, unchanged⟩ | ⟨full, _⟩)
    · exact .inl ⟨.absentChild notScalar notStruct hit, unchanged⟩
    · exact (full rfl).elim
  | some child =>
    rcases range _ child hit with ⟨off, reached⟩
    refine (ends child.offset reached).imp ?_
    rintro _ post (⟨empty, _⟩ | ⟨_, notes, forward, gap, stands⟩)
    · exact absurd empty (Int.ne_of_gt off)
    · have longer := notes.length_pos bounded
      exact .inr ⟨notes, .child notScalar notStruct hit (by omega) (gap (Int.le_of_lt off)) stands⟩

end

/-- A slot is left empty, or it notes what was written for it. -/
theorem writeSlot_ends (own : Catalog.SoundTable p.writer t) (mem : write.field ∈ t.fields)
    (bounded : pre.Bounded) (forced_eq : pre.forceDefaults = p.forced)
    (range :
      ∀ name child, kids.lookup name = some child → 0 < child.offset ∧ child.offset ≤ pre.offset)
    (small : ∀ name child, kids.lookup name = some child → child.tag < 256) (e : Catalog.Entry) :
    Ensures (writeSlot p.writer e fs kids write) pre
      (fun _ post =>
        Fills pre write.slot (write.cell p.writer) (SlotHolds p fs kids · write ·) post)
      (SlotHalts p.writer fs pre write) := by
  have known := (own.isMember mem).known.no_error
  rw [writeSlot]
  split
  · next part =>
      simp only [SlotHolds, Catalog.SlotWrite.cell, part]
      have bound : tagOf kids write.field < 256 := by
        rw [tagOf]
        cases hit : kids.lookup write.field.name with
        | none => exact Nat.zero_lt_succ _
        | some child => exact small _ child hit
      have tag := encode_tag ⟨tagOf kids write.field, bound⟩
      refine (ends_ofBuild (Build.addFieldScalar_ends write.slot .uint8 _ _ bounded)
        fun _ _ failed has _ _ => ?_).imp ?_
      · rcases failed with none | outside | full
        · cases tag.1.symm.trans none
        · exact (outside has).elim
        · exact atLimit_of_isFull full.1
      rintro _ post (⟨same, unchanged⟩ | ⟨_, notes, chunk, enc, stands⟩)
      · exact .inl ⟨.inl ⟨rfl, tag.2.mp (Bool.and_eq_true_iff.mp same).2⟩, unchanged⟩
      · have longer := notes.length_pos bounded
        have bs : chunk = [UInt8.ofNat (tagOf kids write.field)] :=
          Option.some.inj (enc.symm.trans tag.1)
        subst bs
        exact .inr ⟨notes, .inr ⟨by omega, stands⟩⟩
  · next part =>
      simp only [SlotHolds, Catalog.SlotWrite.cell, part]
      refine ends_liftM_bind (fun err miss => ((known err).1 miss).elim)
        fun hit isScalar => ?_
      cases hit with
      | some kind =>
        rw [Catalog.storage?_scalar (Catalog.scalarOf_eq_ok isScalar)]
        exact writeScalarSlot_ends bounded forced_eq isScalar
      | none =>
        refine ends_liftM_bind (fun err miss => ((known err).2 miss).elim)
          fun hit isStruct => ?_
        cases hit with
        | some pair =>
          rcases Catalog.structOf_eq_some isStruct with ⟨id, type_eq, body⟩
          rw [type_eq, Catalog.storage?_struct body]
          exact writeStructSlot_ends bounded isScalar isStruct
        | none =>
          grind [Catalog.storage?_reference, writeChildSlot_ends]

/-! ## All slots -/

/-- Some slots of an open table have been written and have noted what they lead to, and the others
are empty. -/
structure SlotsWritten (p : Passage) (fs : Fields) (kids : List (String × Child Int))
    (opened : Builder Int) (passed : List SlotWrite) (slots : List Int)
    (post : Builder Int) : Prop where
  bounded : post.Bounded
  isSuffix : opened.written <:+ post.written
  offset_le : opened.offset ≤ post.offset
  setting_eq : post.setting = { opened.setting with slots := some slots }
  inside : ∀ noted ∈ slots, noted ≠ 0 → opened.offset < noted ∧ noted ≤ post.written.length
  empty : ∀ i < slots.length, i ∉ passed.map SlotWrite.slot → slots[i]? = some 0
  holds :
    ∀ write ∈ passed, ∃ noted,
      slots[write.slot]? = some noted ∧ SlotHolds p fs kids post.written write noted
  stored : ∃ stored, Stored p.writer opened.offset passed stored slots post.offset

theorem SlotsWritten.skip {slots : List Int} (raw : SlotsWritten p fs kids opened passed slots pre)
    (fresh : write.slot ∉ passed.map SlotWrite.slot) (bound : write.slot < slots.length)
    (holds : SlotHolds p fs kids pre.written write 0) :
    SlotsWritten p fs kids opened (passed ++ [write]) slots pre where
  bounded := raw.bounded
  isSuffix := raw.isSuffix
  offset_le := raw.offset_le
  setting_eq := raw.setting_eq
  inside := raw.inside
  empty := by
    intro i bound other
    rw [List.map_append, List.mem_append, not_or] at other
    exact raw.empty i bound other.1
  holds := by
    grind [holds, empty]
  stored := by
    rcases raw.stored with ⟨stored, sublist, skipped, noted, stop_eq⟩
    refine ⟨stored, sublist.trans (List.sublist_append_left _ _), ?_, noted, stop_eq⟩
    grind [empty]

theorem SlotsWritten.note {slots : List Int} (raw : SlotsWritten p fs kids opened passed slots pre)
    (fresh : write.slot ∉ passed.map SlotWrite.slot) (bound : write.slot < slots.length)
    (notes : Notes pre write.slot (write.cell p.writer) post)
    (holds : SlotHolds p fs kids post.written write post.written.length) :
    SlotsWritten p fs kids opened (passed ++ [write])
      (slots.set write.slot (post.written.length : Int)) post where
  bounded := notes.valid.toBounded
  isSuffix := raw.isSuffix.trans notes.isSuffix
  offset_le := Int.le_trans raw.offset_le (Int.le_of_lt notes.offset_lt)
  setting_eq := by
    rcases notes.setting_eq with ⟨own, hit, _, setting_eq⟩
    have slots_eq : pre.slots = some slots := congrArg Setting.slots raw.setting_eq
    rw [slots_eq] at hit
    cases hit
    rw [setting_eq, raw.setting_eq]
  inside := by
    intro noted mem full
    have all := raw.offset_le
    have further := notes.offset_lt
    have last := notes.valid.offset_eq
    rcases List.mem_or_eq_of_mem_set mem with old | rfl
    · have range := raw.inside noted old full
      have longer := notes.isSuffix.length_le
      omega
    · omega
  empty := by
    grind [empty, List.length_set, List.getElem?_set_ne]
  holds := by
    intro other mem
    rcases List.mem_append.mp mem with pre | own
    · rcases raw.holds other pre with ⟨noted, hit, holds⟩
      have different : write.slot ≠ other.slot := by
        grind
      refine ⟨noted, ?_, holds.mono notes.isSuffix⟩
      rw [List.getElem?_set_ne different]
      exact hit
    · grind
  stored := by
    rcases raw.stored with ⟨stored, sublist, skipped, noted, stop_eq⟩
    rcases notes.moved with ⟨n, padded, further⟩
    have ends : post.offset = (stored ++ [write]).foldl (SlotWrite.stop p.writer)
        opened.offset := by
      rw [List.foldl_concat, ← stop_eq, SlotWrite.stop, ← padded, further]
    refine ⟨stored ++ [write], sublist.append (.refl _), ?_, ?_, ends⟩
    · grind
    · intro before other partway
      rcases List.prefix_concat_iff.mp partway with whole | earlier
      · rw [whole, ← ends, notes.valid.offset_eq]
        cases List.append_inj_right' whole rfl
        rw [List.getElem?_set_self bound]
      grind

/-- Before the first slot is written all are empty. -/
theorem slotsWritten_nil (bounded : opened.Bounded)
    (begun : opened.slots = some (List.replicate n 0)) :
    SlotsWritten p fs kids opened [] (List.replicate n 0) opened := by
  refine ⟨bounded, List.suffix_rfl, Int.le_refl _, ?_, ?_, ?_, ?_, ?_⟩
  · rw [← begun]
    rfl
  · grind
  · grind
  · intro write mem
    cases mem
  · refine ⟨[], .slnil, (fun write mem => by cases mem), fun before write partway => ?_, rfl⟩
    simp at partway

/-- A slot that comes next among slots of their own has not been written. -/
theorem fresh_of_nodup
    (nodup : (writes.map SlotWrite.slot).Nodup) (partway : passed ++ [write] <+: writes) :
    write.slot ∉ passed.map SlotWrite.slot := by
  have distinct := nodup.sublist (partway.sublist.map SlotWrite.slot)
  rw [List.map_append, List.nodup_append] at distinct
  intro mem
  exact distinct.2.2 _ mem _ List.mem_cons_self rfl

/-- After all slots have been written each has noted what it leads to. -/
theorem writeSlots_ends (own : Catalog.SoundTable p.writer t)
    (nodup : ((t.writeOrder p.writer).map SlotWrite.slot).Nodup)
    (listed : ∀ write ∈ t.writeOrder p.writer, write.slot < t.slotCount ∧ write.field ∈ t.fields)
    (bounded : opened.Bounded) (forced_eq : opened.forceDefaults = p.forced)
    (begun : opened.slots = some (List.replicate t.slotCount 0))
    (range :
      ∀ name child, kids.lookup name = some child → 0 < child.offset ∧ child.offset ≤ opened.offset)
    (small : ∀ name child, kids.lookup name = some child → child.tag < 256) (e : Catalog.Entry) :
    Ensures ((t.writeOrder p.writer).forM (writeSlot p.writer e fs kids)) opened
      (fun _ post => ∃ slots, slots.length = t.slotCount ∧
        SlotsWritten p fs kids opened (t.writeOrder p.writer) slots post)
      fun err post =>
        (∀ f ∈ t.fields, ∀ kind, p.writer.scalar? f.type = some kind →
          ∃ bs, kind.encode? (f.default.toScalar kind) = some bs) →
        (∀ write ∈ t.writeOrder p.writer, ∀ v, fs.present? write.field.name = some v →
          p.writer.Typed write.field.type v) → AtLimit err post := by
  refine Ensures.forM
    (motive := fun passed s =>
      ∃ slots, slots.length = t.slotCount ∧ SlotsWritten p fs kids opened passed slots s)
    ⟨_, List.length_replicate, slotsWritten_nil bounded begun⟩ ?_
  rintro passed s write partway ⟨slots, len, raw⟩
  have mem : write ∈ t.writeOrder p.writer :=
    partway.subset (List.mem_append_right _ List.mem_cons_self)
  rcases listed write mem with ⟨bound, fieldMem⟩
  have inBounds : write.slot < slots.length := by omega
  have fresh := fresh_of_nodup nodup partway
  have further := raw.offset_le
  refine (writeSlot_ends own fieldMem raw.bounded
    ((congrArg Setting.forceDefaults raw.setting_eq).trans forced_eq) (fun name child hit => ?_)
    small e).mono (fun _ _ halts stores typed => halts ?_ (stores _ fieldMem) (typed write mem)) ?_
  · grind
  · exact ⟨slots, congrArg Setting.slots raw.setting_eq, inBounds⟩
  · rintro _ next (⟨holds, rfl⟩ | ⟨notes, holds⟩)
    · exact ⟨slots, len, raw.skip fresh inBounds holds⟩
    · exact ⟨_, List.length_set.trans len, raw.note fresh inBounds notes holds⟩

end FlatSchema
