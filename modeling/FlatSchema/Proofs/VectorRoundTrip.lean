import FlatSchema.Proofs.Passage
import FlatSchema.Proofs.TableWriting

/-!
# Texts and vectors are read as they are written

`Leads passage bytes type value offset tag` says what it means that something
written stands for a value: every reference to its offset, wherever it is put
later, reads as the passage says.  A text leads so, and a vector does if the
bytes of each of its elements read as the passage says.
-/

namespace FlatSchema

open Encode
open Buffer (ofList)
open Decode (ofWire readStruct readVector)

variable {chunks : List (List UInt8)}

open Builder

/-! ## References -/

/-- What a reader makes of the reference at a position, of a type that is stored by reference and,
for a union, with the tag of its variant. -/
def readReferred (buf : Buffer) (c : Catalog)
    (readTable : Catalog.TableType → Int → Except RecordError Value) (ty : FieldType)
    (tag : Nat) (pos : Int) : Except RecordError Value :=
  match ty with
  | .scalar _ => return .null
  | .string => do
      let text ← ofWire (buf.readText pos)
      return .text text
  | .vector elem => readVector buf c readTable elem pos
  | .named id =>
    match c.body? id with
    | some (.table t) => do
        let target ← ofWire (buf.follow pos)
        readTable t target
    | some (.union union) =>
      match union.variants.find? fun alt => alt.tag = tag with
      | some alt => do
          let target ← ofWire (buf.follow pos)
          let (_, t) ← c.tableOf alt.table
          let v ← readTable t target
          return .record [("type", .text (Text.ofString alt.name)), ("value", v)]
      | none => return .null
    | _ => return .null

/-- Every reference to an offset reads as a value may be read. -/
structure Leads (p : Passage) (bs : List UInt8) (ty : FieldType) (v : Value) (off : Int)
    (tag : Nat) : Prop where
  positive : 0 < off
  offset_le : off ≤ bs.length
  reads :
    ∀ later, bs <:+ later → ∀ depth : Nat, off < depth →
      ∀ (noted : Int) (forward : Nat),
        Stands later noted (littleEndian 4 forward) → (forward : Int) = noted - off →
        forward < 4294967296 →
        ∃ res,
          readReferred (ofList later) p.reader
              (Decode.readTable (ofList later) p.reader depth) ty tag (spot later noted) = .ok res ∧
            p.Reads ty v res

variable {p : Passage}

theorem Leads.mono (leads : Leads p bs ty v off tag) (suffix : bs <:+ later) :
    Leads p later ty v off tag where
  positive := leads.positive
  offset_le := by
    have below := leads.offset_le
    have longer := suffix.length_le
    omega
  reads := by
    grind [reads]

/-- A reference leads to its target. -/
theorem follow_of_forward (stands : Stands bs noted (littleEndian 4 forward))
    (far : (forward : Int) = noted - off) (fits : forward < 4294967296) :
    (ofList bs).follow (spot bs noted) = .ok (spot bs off) := by
  rw [stands.follow fits, show noted - (forward : Int) = off by omega]

theorem leads_text
    (closed : ClosedVector pre (Utf8.encode text).length (Utf8.encode text) off post) :
    Leads p post.written .string (.text text) off 0 := by
  have whole := closed.stands.le_distance
  have offset_eq := closed.offset_eq
  have room := length_written_le post
  have limit := closed.valid.capacity_lt
  rw [List.length_append, length_littleEndian] at whole
  refine ⟨by omega, by omega, ?_⟩
  intro later suffix depth _ noted forward stands far fits
  have standing := closed.stands.mono suffix
  rw [Build.toNat_word (by omega)] at standing
  have read := Stands.readText (follow_of_forward stands far fits) standing (by omega)
  refine ⟨_, ?_, p.text text⟩
  rw [readReferred, read]
  rfl

/-! ## Elements -/

/-- The elements of a vector, where each of them can be read. -/
theorem readElements_of_each {read : Nat → Except RecordError Value}
    {holds : Value → Value → Prop} {start : Nat}
    (each : ∀ i item, items[i]? = some item → ∃ res, read (start + i) = .ok res ∧ holds item res) :
    ∃ results,
      Decode.readElements read start items.length = .ok results ∧
        List.Forall₂ holds items results := by
  induction items generalizing start with
  | nil => exact ⟨[], rfl, .nil⟩
  | cons hd rest ih =>
    have others :
        ∀ i item, rest[i]? = some item →
          ∃ res, read (start + 1 + i) = .ok res ∧ holds item res := by
      intro i item hit
      rw [Nat.add_assoc, Nat.add_comm 1]
      exact each (i + 1) item hit
    rcases ih others with ⟨results, readRest, held⟩
    rcases each 0 hd rfl with ⟨res, readFirst, holdsFirst⟩
    rw [Nat.add_zero] at readFirst
    refine ⟨res :: results, ?_, .cons holdsFirst held⟩
    rw [List.length_cons, Decode.readElements, readFirst, readRest]
    rfl

theorem Stands.chunk (stands : Stands bs far chunks.flatten)
    (sized : ∀ chunk ∈ chunks, chunk.length = size) {chunk : List UInt8}
    (hit : chunks[i]? = some chunk) : Stands bs (far - (i * size : Nat)) chunk := by
  induction chunks generalizing far i with
  | nil => cases hit
  | cons hd rest ih =>
    cases i with
    | zero =>
      grind [Stands]
    | succ i =>
      have rested := stands.right
      rw [sized hd List.mem_cons_self] at rested
      have placed := ih rested (fun chunk mem => sized chunk (List.mem_cons_of_mem _ mem)) hit
      rw [show far - ((i + 1) * size : Nat) = far - size - (i * size : Nat) by
        rw [Nat.succ_mul]
        omega]
      exact placed

theorem leads_vector {items : List Value} {pre : Builder Int} (size : Nat) (read :
      Buffer → (Catalog.TableType → Int → Except RecordError Value) → Int →
        Except RecordError Value)
    (shape :
      ∀ buf readTable (pos start : Int) (len : Nat),
        buf.vectorStart pos = .ok start → buf.vectorLength pos = .ok len →
        Decode.readVector buf p.reader readTable elem pos =
          Except.map Value.list
            (Decode.readElements
              (fun i => read buf readTable (start + Extent.ofInt (i * size : Nat))) 0
              len)) (closed : ClosedVector pre items.length chunks.flatten off post)
    (n : chunks.length = items.length) (sized : ∀ chunk ∈ chunks, chunk.length = size)
    (positive : 0 < size)
    (each :
      ∀ later, post.written <:+ later → ∀ depth : Nat, off < depth →
        ∀ (i : Nat) (chunk : List UInt8) (item : Value),
          chunks[i]? = some chunk → items[i]? = some item →
          Stands later (off - 4 - (i * size : Nat)) chunk →
          ∃ res,
            read (Buffer.ofList later) (Decode.readTable (Buffer.ofList later) p.reader depth)
                (spot later (off - 4 - (i * size : Nat))) = .ok res ∧ p.Reads elem item res) :
    Leads p post.written (.vector elem) (.list items) off 0 := by
  have whole := closed.stands.le_distance
  have offset_eq := closed.offset_eq
  have room := length_written_le post
  have limit := closed.valid.capacity_lt
  rw [List.length_append, length_littleEndian] at whole
  have total : chunks.length * size = chunks.flatten.length := by
    rw [List.length_flatten, List.map_congr_left sized, List.map_const', List.sum_replicate_nat]
  have enough : chunks.length ≤ chunks.length * size := Nat.le_mul_of_pos_right _ positive
  refine ⟨by omega, by omega, ?_⟩
  intro later suffix depth deep noted forward stands far fits
  have standing := closed.stands.mono suffix
  rw [Build.toNat_word (by omega)] at standing
  have followed := follow_of_forward stands far fits
  have start :
      (Buffer.ofList later).vectorStart (spot later noted) = .ok (spot later (off - 4)) := by
    rw [Buffer.vectorStart, followed]
    refine congrArg Except.ok ?_
    rw [Extent.ofInt_int, spot, spot]
    omega
  have len : (Buffer.ofList later).vectorLength (spot later noted) = .ok items.length := by
    rw [Buffer.vectorLength, followed]
    exact standing.left.readNat (by show _ < 4294967296; omega)
  have bodies := standing.right
  have elems :
      ∃ results,
        Decode.readElements
            (fun i =>
              read (Buffer.ofList later)
                (Decode.readTable (Buffer.ofList later) p.reader depth)
                (spot later (off - 4) + Extent.ofInt (i * size : Nat)))
            0 items.length = .ok results ∧
          List.Forall₂ (p.Reads elem) items results := by
    apply readElements_of_each
    intro i item own
    have bound : i < chunks.length := by
      grind
    have chunk := List.getElem?_eq_getElem bound
    have read := each later suffix depth deep i _ item chunk own (bodies.chunk sized chunk)
    rw [Nat.zero_add, Extent.ofInt_int,
      show spot later (off - 4) + ((i * size : Nat) : Int) =
        spot later (off - 4 - (i * size : Nat)) by rw [spot, spot]; omega]
    exact read
  rcases elems with ⟨results, read, held⟩
  refine ⟨.list results, ?_, p.list held⟩
  rw [readReferred, shape _ _ _ _ _ start len, read]
  rfl

/-! ## The kinds of vectors -/

variable {elem : FieldType} {items : List Value} {pre post : Builder Int} {off : Int}

/-- Chunks that are related to the elements of a list one by one have what the relation gives. -/
theorem forall_mem_of_forall₂ {α β : Type} {rel : α → β → Prop} {prop : β → Prop}
    {lefts : List α} {rights : List β} (all : List.Forall₂ rel lefts rights)
    (gives : ∀ left right, rel left right → prop right) : ∀ right ∈ rights, prop right := by
  intro right mem
  rcases exists_mem_of_forall₂ all mem with ⟨left, _, related⟩
  exact gives left right related

theorem leads_scalarVector (isScalar : p.writer.scalarOf elem = .ok (some kind)) (taken :
      List.Forall₂ (fun item v => ∃ given, item = Value.scalar given ∧ v = kind.coerce given)
        items vs) (enc : List.Forall₂ (fun v chunk => kind.encode? v = some chunk) vs chunks)
    (closed : ClosedVector pre vs.length chunks.flatten off post) :
    Leads p post.written (.vector elem) (.list items) off 0 := by
  rw [← taken.length_eq] at closed
  refine leads_vector kind.size (fun buf _ pos => Decode.readScalar buf kind pos)
    ?_ closed (enc.length_eq.symm.trans taken.length_eq.symm)
    (forall_mem_of_forall₂ enc fun _ _ => ScalarKind.length_of_encode) ?_ ?_
  · intro buf readTable pos start len begun counted
    simp only [readVector, begun, counted, p.extended.scalarOf_eq, isScalar,
      ofWire, bind, Except.bind]
    rfl
  · cases kind <;> decide
  · intro later suffix depth _ i chunk item foundChunk foundItem stands
    rcases exists_of_forall₂_left taken foundItem with ⟨v, foundValue, given, rfl, rfl⟩
    rcases exists_of_forall₂_left enc foundValue with ⟨own, foundOwn, stored⟩
    rw [foundChunk] at foundOwn
    cases foundOwn
    refine ⟨_, ?_, p.scalar (Catalog.scalarOf_eq_ok isScalar) given⟩
    rw [Decode.readScalar, stands.readScalar stored]
    rfl

theorem leads_referenceVector {forwards : List Nat} (notScalar : p.writer.scalarOf elem = .ok none)
    (notStruct : p.writer.structOf elem = .ok none)
    (referred : elem = .string ∨ ∃ id t, elem = .named id ∧ p.writer.body? id = some (.table t))
    (leads :
      List.Forall₂ (fun item target => Leads p pre.written elem item target 0)
        items targets) (n : forwards.length = targets.length)
    (closed : ClosedVector pre targets.length (forwards.map (littleEndian 4)).flatten off post)
    (distances :
      ∀ (i : Nat) (target : Int) (forward : Nat),
        targets[i]? = some target → forwards[i]? = some forward →
        (forward : Int) = off - 4 - 4 * i - target) :
    Leads p post.written (.vector elem) (.list items) off 0 := by
  rw [← leads.length_eq] at closed
  refine leads_vector 4 (fun buf readTable pos => readReferred buf p.reader readTable elem 0 pos)
    ?_ closed ?_ ?_ (by decide) ?_
  · intro buf readTable pos start len begun counted
    simp only [readVector, begun, counted, p.extended.scalarOf_eq, notScalar,
      p.extended.structOf_none notStruct, ofWire, bind, Except.bind]
    rcases referred with rfl | ⟨id, t, rfl, body⟩
    · rfl
    · rcases p.extended.exists_table body with ⟨grown, _, grownBody, _, _⟩
      rcases Catalog.tableOf_of_body grownBody with ⟨e, hit⟩
      simp only [readReferred, hit, grownBody]
      rfl
  · rw [List.length_map, n, leads.length_eq]
  · simp_all
  · intro later suffix depth deep i chunk item foundChunk foundItem stands
    rcases exists_of_forall₂_left leads foundItem with ⟨target, foundTarget, own⟩
    rw [List.getElem?_map, Option.map_eq_some_iff] at foundChunk
    rcases foundChunk with ⟨forward, foundForward, rfl⟩
    have far := distances i target forward foundTarget foundForward
    have offset_eq := closed.offset_eq
    have room := length_written_le post
    have limit := closed.valid.capacity_lt
    have positive := own.positive
    exact own.reads later (closed.isSuffix.trans suffix) depth (by omega) _ forward stands
      (by omega) (by omega)

/-! ## Vectors of structs -/

/-- The bytes of an element read as the struct that it is. -/
def StructItemHolds (p : Passage) (id : Nat) (struct : Catalog.StructType) (item : Value)
    (chunk : List UInt8) : Prop :=
  chunk.length = struct.size ∧ p.writer.Typed (.named id) item ∧
    ∃ res,
      p.Reads (.named id) item res ∧
        ∀ bs far, Stands bs far chunk →
          readStruct (ofList bs) p.writer p.writer.entries.length
              struct (spot bs far) =
            .ok res

/-- Structs that are written last first from a multiple of their alignment stand in order without
zeros between them. -/
theorem writeStructItems_ends {id : Nat} (e : Catalog.Entry)
    (place : String) (body : p.writer.body? id = some (.struct struct))
    (valid : pre.Valid) (aligned : (struct.alignment : Int) ∣ pre.written.length) :
    Ensures
      (items.reverse.forM fun item => do
        let fs ← (liftM (asRecord place (some item)) : Encode Int Fields)
        let _ : Int ← writeStruct p.writer e struct fs)
      pre
      (fun _ post => ∃ chunks,
        List.Forall₂ (StructItemHolds p id struct) items chunks ∧ Appends pre chunks.flatten post ∧
          (struct.alignment : Int) ∣ post.written.length)
      fun err post => (∀ item ∈ items, p.writer.Typed (.named id) item) → AtLimit err post := by
  rcases p.sound.structs with ⟨rank, structs⟩
  have soundStructs := fun id struct body => (structs id struct body).2
  have own := structs id struct body
  induction items with
  | nil => exact .pure ⟨[], .nil, .refl valid, aligned⟩
  | cons hd rest ih =>
    refine .reverse_forM_cons (ih.mono (fun _ _ halts typed => halts ?_) fun _ _ done => done) ?_
    · exact fun item mem => typed item (List.mem_cons_of_mem _ mem)
    rintro mid ⟨chunks, holds, appended, multiple⟩
    refine ends_liftM_bind (fun err refused typed => ?_) fun fs record => ?_
    · rcases (typed hd List.mem_cons_self).exists_struct body with ⟨_, rfl, _⟩
      cases refused
    cases asRecord_eq_ok record
    refine (writeStruct_ends soundStructs body e fs appended.valid.toBounded).bind
      (fun _ _ halts typed => halts (typed _ List.mem_cons_self)) fun _ post whole => .pure ?_
    rcases whole.written with ⟨n, chunk, gap, len, put, _, reads⟩
    have dvd : (struct.alignment : Int) ∣ (mid.written.length : Int) + struct.size :=
      Int.dvd_add multiple (Int.natCast_dvd_natCast.mpr own.2.dvd_size)
    rw [appended.valid.offset_eq, Int.emod_eq_zero_of_dvd (Int.dvd_neg.mpr dvd)] at gap
    rw [show n = 0 by omega, appended.valid.gap_eq, List.replicate_zero, List.append_nil] at put
    refine ⟨chunk :: chunks, .cons ⟨len, whole.typed, _, p.struct body fs, reads _ own.1⟩ holds,
      appended.trans put, ?_⟩
    rw [put.length_eq, Int.natCast_add, len, Int.add_comm]
    exact dvd

theorem writeStructs_ends (e : Catalog.Entry) (items : List Value) (place : String)
    (notScalar : p.writer.scalarOf elem = .ok none)
    (isStruct : p.writer.structOf elem = .ok (some (own, struct))) (ready : pre.Ready p.forced) :
    Ensures (writeStructs p.writer e struct items place) pre
      (fun off post => Grows p.forced pre post ∧ p.writer.Typed (.vector elem) (.list items) ∧
        Leads p post.written (.vector elem) (.list items) off 0)
      (Halts p.writer pre (.vector elem) (.list items)) := by
  rcases Catalog.structOf_eq_some isStruct with ⟨id, rfl, body⟩
  rcases p.sound.structs with ⟨rank, structs⟩
  have soundStruct := (structs id struct body).2
  refine (ends_ofBuild (Build.startVector_ends struct.size items.length
    soundStruct.isAlignment ready.bounded) fun _ _ => halts_of_full).andThen fun _ opened lead => ?_
  have aligned : (struct.alignment : Int) ∣ opened.written.length := by
    have whole := Int.dvd_of_emod_eq_zero lead.aligned
    have multiple : (struct.alignment : Int) ∣ (struct.size * items.length : Nat) :=
      Int.natCast_dvd_natCast.mpr (Dvd.dvd.mul_right soundStruct.dvd_size _)
    exact (Int.dvd_add_left multiple).mp whole
  refine (writeStructItems_ends e place body lead.valid aligned).bind
    (fun _ _ halts _ _ typed => .inl (halts ?_)) ?_
  · rcases typed.exists_list with ⟨_, ⟨⟩, _, each⟩
    exact each
  rintro _ full ⟨chunks, holds, appended, _⟩
  have size : chunks.flatten.length = struct.size * items.length :=
    Build.length_flatten_of_forall₂ holds fun _ _ item => item.1
  refine (ends_ofBuild (Build.closeVector_ends lead appended size)
    fun _ _ full => halts_of_full (.inr full)).imp ?_
  rintro off post ⟨closed, _⟩
  refine ⟨closed.grows ready,
    .list (.inline (.struct (Catalog.kind?_of_body? body))) fun item mem => ?_, ?_⟩
  · rcases List.getElem?_of_mem mem with ⟨i, hit⟩
    rcases exists_of_forall₂_left holds hit with ⟨_, _, held⟩
    exact held.2.1
  refine leads_vector struct.size
    (fun buf _ pos => readStruct buf p.reader p.reader.entries.length struct pos)
    ?_ closed holds.length_eq.symm (forall_mem_of_forall₂ holds fun _ _ item => item.1)
    (Catalog.size_pos_of_sound (fun id struct body => (structs id struct body).2) body) ?_
  · intro buf readTable pos start len begun counted
    rcases p.extended.structOf_some isStruct with ⟨other, isAlso⟩
    simp only [readVector, begun, counted, p.extended.scalarOf_eq, notScalar, isAlso,
      ofWire, bind, Except.bind]
    rfl
  · intro later suffix depth _ i chunk item foundChunk foundItem stands
    rcases exists_of_forall₂_left holds foundItem with ⟨hit, foundOwn, item⟩
    rw [foundChunk] at foundOwn
    cases foundOwn
    rcases item.2.2 with ⟨res, held, reads⟩
    refine ⟨res, ?_, held⟩
    rw [p.extended.readStruct_eq, p.extended.length_eq]
    exact reads later _ stands

end FlatSchema
