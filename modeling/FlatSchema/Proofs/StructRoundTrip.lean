import FlatSchema.Proofs.Outcome
import FlatSchema.Proofs.RecordSteps
import FlatSchema.Proofs.Typing
import FlatSchema.Record.Decode

/-!
# Structs are read as they are written

A struct is written from its last field to its first.  Since its fields tile
it and every nested struct is aligned where its turn comes, the bytes of each
field stand at the offset of the field, and no zeros come between them but the
padding.  The argument goes by the rank of structs: a struct holds structs of
lower rank only.
-/

namespace FlatSchema

open Build Encode Extent
open Buffer (ofList)
open Catalog (Entry SoundStruct StructField StructType)
open Decode (readStruct)

variable {fs : Fields} {c : Catalog} {e : Entry}

theorem Encode.asRecord_eq_ok (record : asRecord place (some v) = .ok fs) : v = .record fs := by
  unfold asRecord at record
  grind

open Builder

/-! ## Fields that tile a struct -/

theorem reverse_tiles_ends (holds : StructField → List UInt8 → Prop) {fs : List StructField}
    {start stop : Nat} {stops : RecordError → Builder Int → Prop}
    (each :
      ∀ f ∈ fs, ∀ mid : Builder Int, mid.Valid → (f.padding + f.size : Nat) ≤ mid.space →
        mid.written.length + f.padding + f.size + f.offset = pre.written.length + stop →
        Ensures (step f) mid
          (fun _ last => ∃ chunk,
            chunk.length = f.size ∧
              Appends mid (chunk ++ List.replicate f.padding 0) last ∧ holds f chunk) stops)
    (valid : pre.Valid) (room : (stop : Int) - start ≤ pre.space)
    (tiles : StructLayout.Tiles start (fs.map Check.placementOf) stop) :
    Ensures (fs.reverse.forM step) pre
      (fun _ post => ∃ all,
        Appends pre all post ∧ start + all.length = stop ∧
          ∀ bs far, Stands bs far all →
            ∀ f ∈ fs, ∃ chunk,
              holds f chunk ∧ chunk.length = f.size ∧
                Stands bs (far + start - f.offset) (chunk ++ List.replicate f.padding 0))
      stops := by
  induction fs generalizing start with
  | nil => exact .pure ⟨[], .refl valid, tiles, fun _ _ _ _ mem => by cases mem⟩
  | cons hd rest ih =>
    rcases tiles with ⟨off, tiles⟩
    simp only [Check.placementOf] at off tiles
    refine .reverse_forM_cons
      (ih (fun f mem => each f (List.mem_cons_of_mem _ mem)) (by omega) tiles) ?_
    rintro mid ⟨behind, appended, len, standing⟩
    have middleLength := appended.length_eq
    have larger := appended.capacity_le
    have old := valid.space_eq
    have new := appended.valid.space_eq
    refine (each hd List.mem_cons_self mid appended.valid (by omega) (by omega)).imp ?_
    rintro _ post ⟨chunk, size, put, holdsFirst⟩
    refine ⟨_, appended.trans put, ?_, ?_⟩
    · grind
    · intro bs far stands f mem
      have firstStands := stands.left
      have restStands := stands.right
      simp only [List.length_append, List.length_replicate] at restStands
      rcases List.mem_cons.mp mem with rfl | later
      · refine ⟨chunk, holdsFirst, size, ?_⟩
        rw [show far + (start : Int) - f.offset = far by omega]
        exact firstStands
      · rcases standing bs _ restStands f later with
          ⟨own, ownHolds, ownSize, ownStands⟩
        refine ⟨own, ownHolds, ownSize, ?_⟩
        rw [show far + (start : Int) - f.offset =
          far - ((chunk.length + hd.padding : Nat) : Int) +
            ((start + hd.size + hd.padding : Nat) : Int) - f.offset by omega]
        exact ownStands

/-! ## Reading and writing by rank -/

/-- What a reader makes of a field of a struct at a position. -/
def readStructField (buf : Buffer) (c : Catalog) (depth : Nat)
    (f : StructField) (place : Int) : Except RecordError (Option (String × Value)) := do
  match ← c.structOf f.type with
  | some (_, nested) =>
    let v ← readStruct buf c depth nested place
    return some (f.name, v)
  | none =>
    match ← c.scalarOf f.type with
    | some kind =>
      let v ← Decode.readScalar buf kind place
      return some (f.name, v)
    | none => return none

theorem readStruct_succ (buf : Buffer) (c : Catalog) (depth : Nat)
    (struct : StructType) (pos : Int) :
    readStruct buf c (depth + 1) struct pos = do
      let fs ← struct.fields.mapM fun f => readStructField buf c depth f (pos + ofInt f.offset)
      return .record (fs.filterMap id) :=
  rfl

/-- The bytes of a field: those of the scalar that is given for it, as its kind takes it, or those
of a struct. -/
def FieldLaid (c : Catalog) (laid : StructType → Fields → List UInt8 → Prop) (fs : Fields)
    (f : StructField) (own : List UInt8) : Prop :=
  match c.structOf f.type with
  | .ok (some (_, nested)) =>
    ∃ innerFs, fs.lookup f.name = some (.record innerFs) ∧ laid nested innerFs own
  | _ =>
    ∃ kind given, c.scalarOf f.type = .ok (some kind) ∧ fs.lookup f.name = some (.scalar given) ∧
      kind.encode? (kind.coerce given) = some own

/-- The bytes of a struct: each field begins at its offset and is followed by its padding, all
zeros, and so it is with the structs that it holds, up to a depth. -/
def StructLaid (c : Catalog) : Nat → StructType → Fields → List UInt8 → Prop
  | 0, _, _, _ => True
  | depth + 1, struct, fs, chunk =>
    ∀ f ∈ struct.fields, ∃ own, own.length = f.size ∧
      chunk.drop f.offset = own ++ List.replicate f.padding 0 ++
        chunk.drop (f.offset + f.size + f.padding) ∧
      FieldLaid c (StructLaid c depth) fs f own

/-- A struct has been written: its bytes follow zeros that align it, and read back as the normal
form wherever they stand. -/
structure StructWritten (c : Catalog) (rank : Nat → Nat) (id : Nat) (struct : StructType)
    (fs : Fields) (pre : Builder Int) (off : Int) (post : Builder Int) : Prop where
  typed : c.Typed (.named id) (.record fs)
  offset_eq : off = post.written.length
  written :
    ∃ (n : Nat) (chunk : List UInt8),
      (n : Int) = -(pre.offset + struct.size) % struct.alignment ∧ chunk.length = struct.size ∧
        Appends pre (chunk ++ List.replicate (n + (-pre.space).toNat) 0) post ∧
        (∀ depth, StructLaid c depth struct fs chunk) ∧
        ∀ depth, rank id < depth → ∀ bs far, Stands bs far chunk →
          readStruct (ofList bs) c depth struct (spot bs far) =
            .ok (c.normalForm (.named id) (.record fs))

/-- Structs of a rank are written as such, or the writer stops at a limit. -/
def StructEnds (c : Catalog) (rank : Nat → Nat) (level : Nat) : Prop :=
  ∀ id struct, rank id < level → c.body? id = some (.struct struct) →
    ∀ e fs (pre : Builder Int), pre.Bounded →
      Ensures (writeStruct c e struct fs) pre
        (fun off post => StructWritten c rank id struct fs pre off post)
        fun err post => c.Typed (.named id) (.record fs) → AtLimit err post

/-- The bytes of a field, which has its type and reads back as its normal form, with structs nested
up to a depth. -/
def StructFieldHolds (c : Catalog) (fs : Fields) (least : Nat) (f : StructField)
    (chunk : List UInt8) : Prop :=
  (∃ v, fs.lookup f.name = some v ∧ c.Typed f.type v) ∧
  (∀ depth, FieldLaid c (StructLaid c depth) fs f chunk) ∧
  ∀ depth, least ≤ depth → ∀ bs far, Stands bs far chunk →
    readStructField (ofList bs) c depth f (spot bs far) =
      .ok (some (f.name, c.normalStructField fs f))

theorem structFieldHolds_scalar
    (notStruct : c.structOf f.type = .ok none) (isScalar : c.scalarOf f.type = .ok (some kind))
    (hit : fs.lookup f.name = some (.scalar given)) (takes : kind.Takes given)
    (enc : kind.encode? (kind.coerce given) = some chunk) (least : Nat) :
    StructFieldHolds c fs least f chunk := by
  have stored := Catalog.scalarOf_eq_ok isScalar
  refine ⟨⟨_, hit, .scalar stored takes⟩, fun _ => ?_, fun depth _ bs far stands => ?_⟩
  · grind [FieldLaid]
  have read := stands.readScalar enc
  rw [readStructField, notStruct]
  simp only [bind, Except.bind, isScalar, Decode.readScalar, read, Decode.ofWire]
  rw [Catalog.normalStructField, hit]
  simp only [Catalog.normalForm_scalar stored, ScalarKind.normal]
  rfl

variable {rank : Nat → Nat}

/-- A nested struct that is aligned at its turn takes its own bytes only. -/
theorem structFieldHolds_struct {nested : StructType} {inner : Nat}
    (isStruct : c.structOf f.type = .ok (some (e, nested))) (type_eq : f.type = .named inner)
    (hit : fs.lookup f.name = some (.record innerFs))
    (typed : c.Typed (.named inner) (.record innerFs))
    (laid : ∀ depth, StructLaid c depth nested innerFs chunk)
    (reads :
      ∀ depth, rank inner < depth → ∀ bs far, Stands bs far chunk →
        readStruct (ofList bs) c depth nested (spot bs far) =
          .ok (c.normalForm (.named inner) (.record innerFs))) {least : Nat}
    (lower : rank inner < least) : StructFieldHolds c fs least f chunk := by
  refine ⟨⟨_, hit, type_eq ▸ typed⟩, fun depth => ?_, fun depth enough bs far stands => ?_⟩
  · grind [FieldLaid]
  have read := reads depth (Nat.lt_of_lt_of_le lower enough) bs far stands
  rw [readStructField, isStruct]
  simp only [bind, Except.bind, read]
  rw [Catalog.normalStructField, hit, type_eq]
  rfl

theorem Catalog.known_of_storage? (room : c.storage? ty = some cell) : c.Known ty := by
  cases ty with
  | named id =>
    cases stands : c.entry? id with
    | none => simp [storage?, scalar?, body?, stands] at room
    | some e => exact ⟨e, stands⟩
  | vector => cases room
  | _ => trivial

/-- A field is written with its padding behind it and without a gap, if the struct around it is
aligned and structs of lower rank are written as such. -/
theorem writeStructField_ends {id : Nat}
    (own : SoundStruct c rank id struct) (body : c.body? id = some (.struct struct))
    (inner : StructEnds c rank (rank id)) {begins mid : Builder Int}
    (multiple : (struct.alignment : Int) ∣ begins.written.length + struct.size)
    (e : Entry) (fs : Fields) (mem : f ∈ struct.fields) (valid : mid.Valid)
    (free : (f.padding + f.size : Nat) ≤ mid.space)
    (place :
      mid.written.length + f.padding + f.size + f.offset = begins.written.length + struct.size) :
    Ensures (writeStructField c e fs f) mid
      (fun _ last => ∃ chunk,
        chunk.length = f.size ∧ Appends mid (chunk ++ List.replicate f.padding 0) last ∧
          StructFieldHolds c fs (rank id) f chunk)
      fun err post => c.Typed (.named id) (.record fs) → AtLimit err post := by
  rcases own.stored f mem with ⟨cell, room, size, dvdOffset, dvdAlignment⟩
  have fieldTyped : c.Typed (.named id) (.record fs) →
      ∃ v, fs.lookup f.name = some v ∧ c.Typed f.type v := by
    grind [Catalog.Typed.exists_struct]
  have known := (Catalog.known_of_storage? room).no_error
  refine (ends_ofBuild (pad_ends f.padding valid) fun _ _ lacking => by omega).andThen
    fun _ spaced zeros => ?_
  have spacedLength := zeros.length_eq
  rw [List.length_replicate] at spacedLength
  refine ends_liftM_bind (fun err miss => ((known err).2 miss).elim) fun hit lookup => ?_
  cases hit with
  | some pair =>
    rcases pair with ⟨innerEntry, nested⟩
    rcases Catalog.structOf_eq_some lookup with ⟨innerId, type_eq, innerBody⟩
    rw [type_eq, Catalog.storage?_struct innerBody] at room
    cases room
    simp only at size dvdOffset dvdAlignment ⊢
    split
    · next innerFs held =>
        have lower := own.lower f mem innerId nested type_eq innerBody
        refine (inner innerId nested lower innerBody _ _ _ zeros.valid.toBounded).bind
          (fun _ _ halts typed => halts ?_) fun _ _ fits => .pure ?_
        · grind
        rcases fits.written with ⟨gap, chunk, gapEqual, len, put, laid, reads⟩
        -- The nested struct is aligned at its turn, so no zeros come behind it.
        have dvd : (nested.alignment : Int) ∣ -((spaced.written.length : Int) + nested.size) := by
          have all : (nested.alignment : Int) ∣ begins.written.length + struct.size :=
            (Int.natCast_dvd_natCast.mpr dvdAlignment).trans multiple
          have off : (nested.alignment : Int) ∣ f.offset := Int.natCast_dvd_natCast.mpr dvdOffset
          have sum := Int.dvd_sub off all
          rw [show -((spaced.written.length : Int) + nested.size) =
            f.offset - (begins.written.length + struct.size) by omega]
          exact sum
        rw [zeros.valid.offset_eq] at gapEqual
        rw [show gap = 0 by omega, zeros.valid.gap_eq, List.replicate_zero, List.append_nil] at put
        exact ⟨chunk, by omega, zeros.trans put,
          structFieldHolds_struct lookup type_eq held fits.typed laid reads lower⟩
    · next other =>
        refine .throw fun typed => ?_
        rcases fieldTyped typed with ⟨v, hit, own⟩
        rcases (type_eq ▸ own).exists_struct innerBody with ⟨innerFs, rfl, _⟩
        exact (other innerFs hit).elim
  | none =>
    refine ends_liftM_bind (fun err miss => ((known err).1 miss).elim) fun hit isScalar => ?_
    cases hit with
    | some kind =>
      have stored := Catalog.scalarOf_eq_ok isScalar
      rw [Catalog.storage?_scalar stored] at room
      cases room
      refine ends_liftM_bind (fun err refused typed => ?_) fun actual normalized => ?_
      · grind [Catalog.Typed.exists_scalar, normalize_of_takes]
      rcases normalize_spec normalized with ⟨given, hit, rfl⟩
      rw [hit] at normalized
      rcases exists_encode_coerce kind given with ⟨bs, enc⟩
      have larger := zeros.capacity_le
      have old := valid.space_eq
      have new := zeros.valid.space_eq
      have width : f.size = kind.size := size
      refine (ends_ofBuild (writeScalar_ends kind _ zeros.valid)
        fun _ _ failed _ => ?_).imp ?_
      · grind
      · rintro _ _ ⟨chunk, enc, put⟩
        exact ⟨chunk, (ScalarKind.length_of_encode enc).trans width.symm, zeros.trans put,
          structFieldHolds_scalar lookup isScalar hit (takes_of_normalize normalized) enc _⟩
    | none =>
      rw [Catalog.storage?_reference isScalar lookup] at room
      cases room

/-- The fields of a struct that is aligned after them are written as its bytes, if structs of lower
rank are. -/
theorem fillStruct_ends {id : Nat} (own : SoundStruct c rank id struct)
    (body : c.body? id = some (.struct struct)) (inner : StructEnds c rank (rank id))
    {prepared : Builder Int} (valid : prepared.Valid)
    (multiple : (struct.alignment : Int) ∣ prepared.written.length + struct.size)
    (room : (struct.size : Int) ≤ prepared.space) (e : Entry) (fs : Fields) :
    Ensures (struct.fields.reverse.forM (writeStructField c e fs)) prepared
      (fun _ full => c.Typed (.named id) (.record fs) ∧
        ∃ chunk, chunk.length = struct.size ∧ Appends prepared chunk full ∧
          (∀ depth, StructLaid c depth struct fs chunk) ∧
          ∀ depth, rank id < depth → ∀ bs far, Stands bs far chunk →
            readStruct (ofList bs) c depth struct (spot bs far) =
              .ok (c.normalForm (.named id) (.record fs)))
      fun err post => c.Typed (.named id) (.record fs) → AtLimit err post := by
  refine (reverse_tiles_ends (StructFieldHolds c fs (rank id))
    (fun f mem mid firstValid free place =>
      writeStructField_ends own body inner multiple e fs mem firstValid free place)
    valid (by omega) own.tiles).imp ?_
  rintro _ full ⟨all, appended, size, standing⟩
  rw [Nat.zero_add] at size
  have itself := Stands.front all []
  rw [List.append_nil] at itself
  have typed : ∀ f ∈ struct.fields, ∃ v, fs.lookup f.name = some v ∧ c.Typed f.type v := by
    intro f mem
    rcases standing all _ itself f mem with ⟨_, holds, _⟩
    exact holds.1
  refine ⟨.struct body (fun f mem => ?_) (fun f mem v hit => ?_), all, size, appended,
    fun depth => ?_, ?_⟩
  · grind
  · grind
  · cases depth with
    | zero => trivial
    | succ depth =>
      intro f mem
      rcases standing all _ itself f mem with ⟨chunk, holds, len, stands⟩
      have bytes := stands.drop_eq (show (f.offset : Int) = _ by omega)
      rw [List.length_append, List.length_replicate, len, ← Nat.add_assoc] at bytes
      exact ⟨chunk, len, bytes, holds.2.1 depth⟩
  · intro depth enough bs far stands
    cases depth with
    | zero => exact absurd enough (Nat.not_lt_zero _)
    | succ depth =>
      have each :
          ∀ f ∈ struct.fields,
            readStructField (ofList bs) c depth f (spot bs far + ofInt f.offset) =
              .ok (some (f.name, c.normalStructField fs f)) := by
        intro f mem
        rcases standing bs far stands f mem with ⟨chunk, holds, _, chunkStands⟩
        have read := holds.2.2 depth (Nat.le_of_lt_succ enough) bs _ chunkStands.left
        grind [ofInt_int, spot]
      rw [readStruct_succ, mapM_eq_ok each, Catalog.normalForm_struct body]
      exact congrArg (fun read => Except.ok (Value.record read)) (by simp)

/-- Writing a struct: by the rank of structs, since it holds structs of lower rank only. -/
theorem structEnds (sound :
      ∀ id struct, c.body? id = some (.struct struct) →
        SoundStruct c rank id struct) (level : Nat) : StructEnds c rank level := by
  induction level with
  | zero => exact fun _ _ below => absurd below (Nat.not_lt_zero _)
  | succ level ih =>
    intro id struct below body e fs pre bounded
    have own := sound id struct body
    have inner : StructEnds c rank (rank id) := fun nested struct lower =>
      ih nested struct (by omega)
    rw [writeStruct_eq]
    -- The room that the struct asks for aligns it after its own bytes.
    refine (ends_ofBuild (prep_aligned (isPower_of_isAlignment own.isAlignment)
      bounded) fun _ _ full => ?_).bind (fun _ _ full _ => full) ?_
    · exact atLimit_of_isFull full.1
    rintro _ prepared ⟨n, zeros, padded, further, room, _⟩
    have multiple : (struct.alignment : Int) ∣ prepared.written.length + struct.size := by
      refine Int.dvd_of_emod_eq_zero ?_
      rw [← padded.valid.offset_eq, further, Int.add_comm pre.offset]
      exact emod_of_padding zeros
    refine (fillStruct_ends own body inner padded.valid multiple (by omega) e fs).andThen ?_
    rintro _ full ⟨typed, all, size, appended, laid, reads⟩
    exact ⟨typed, appended.valid.offset_eq, n, all, zeros, size, padded.trans appended, laid, reads⟩

theorem writeStruct_ends (sound :
      ∀ id struct, c.body? id = some (.struct struct) → SoundStruct c rank id struct) {id : Nat}
    (body : c.body? id = some (.struct struct)) (e : Entry) (fs : Fields) (bounded : pre.Bounded) :
    Ensures (writeStruct c e struct fs) pre
      (fun off post => StructWritten c rank id struct fs pre off post)
      fun err post => c.Typed (.named id) (.record fs) → AtLimit err post :=
  structEnds sound (rank id + 1) id struct (Nat.lt_succ_self _) body e fs pre bounded

end FlatSchema
