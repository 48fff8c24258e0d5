import FlatSchema.Proofs.TableRoundTrip

/-!
# Records are read as they are written

A record is written as a table after everything that its fields refer to.  The
argument follows the nesting of the record: what holds of the records inside
is known when the table around them is written.  Each part leaves the builder
ready for the next and leads to its normal form, as long as the inline parts
of all tables written are short enough for their vtables.
-/

namespace FlatSchema

open Encode
open Catalog (TableType Entry tableOf_eq_ok tableOf_of_body TableField scalarOf_eq_ok)

variable {place : String} {res : Option (String × Child Int)} {full : Builder Int}

open Builder

/-- What was written for a value of a type leads to it, and nothing is lacking in it, as long as
inline parts are short. -/
structure Brought (p : Passage) (ty : FieldType) (v : Value) (off : Int) (tag : Nat)
    (b : Builder Int) : Prop where
  positive : 0 < off
  offset_le : off ≤ b.written.length
  typed : p.writer.Typed ty v
  complete : p.writer.Manageable → b.InlineFits → ∀ f, ¬p.writer.Lacks f ty v
  leads :
    (∀ id t, p.writer.body? id = some (.table t) → t.slotCount ≤ 32765) → b.InlineFits →
      Leads p b.written ty v off tag

variable {p : Passage}

theorem Brought.mono (brought : Brought p ty v off tag pre)
    (grows : Grows p.forced pre post) : Brought p ty v off tag post where
  positive := brought.positive
  offset_le := by
    have reached := brought.offset_le
    have longer := grows.isSuffix.length_le
    omega
  typed := brought.typed
  complete := fun manageable fits => brought.complete manageable (grows.inlineFits fits)
  leads := by
    intro short fits
    exact (brought.leads short (grows.inlineFits fits)).mono grows.isSuffix

theorem Leads.brought (leads : Leads p b.written ty v off tag)
    (typed : p.writer.Typed ty v) (complete : ∀ f, ¬p.writer.Lacks f ty v) :
    Brought p ty v off tag b :=
  ⟨leads.positive, leads.offset_le, typed, fun _ _ => complete, fun _ _ => leads⟩

/-- What an operation writes leads to a value of a type.  Where it stops, the value does not have
the type or lacks a field, or a limit is reached. -/
def Conveys (p : Passage) (ty : FieldType) (v : Value) (op : Encode Int Int) : Prop :=
  ∀ pre : Builder Int, pre.Ready p.forced →
    Ensures op pre (fun off post => Grows p.forced pre post ∧ Brought p ty v off 0 post)
      (Halts p.writer pre ty v)

/-- A record is conveyed as a table. -/
def TableConveys (p : Passage) (fs : Fields) : Prop :=
  ∀ (id : Nat) (t : TableType) (e : Entry),
    p.writer.body? id = some (.table t) →
      Conveys p (.named id) (.record fs) (writeTable p.writer e t fs)

/-! ## Vectors -/

section

variable {elem : FieldType} {items : List Value}

theorem Catalog.isElement_of_scalar? {c : Catalog} (stored : c.scalar? elem = some kind) :
    c.IsElement elem := by
  cases elem with
  | scalar kind => exact .inline (.scalar kind)
  | string | vector => cases stored
  | named id =>
    rw [scalar?] at stored
    split at stored
    · next body => exact .inline (.enum (kind?_of_body? body))
    · cases stored

theorem Catalog.Referred.storage?_eq {c : Catalog} (referred : c.Referred ty) :
    c.storage? ty = none := by
  cases ty with
  | scalar => exact referred.elim
  | string | vector => rfl
  | named id => rcases referred with ⟨_, body⟩ | ⟨_, body⟩ <;> simp [storage?, scalar?, body]

/-- Elements that are written one after another, and references to them after that. -/
theorem conveys_references
    (notScalar : p.writer.scalarOf elem = .ok none) (notStruct : p.writer.structOf elem = .ok none)
    (referred : elem = .string ∨ ∃ id t, elem = .named id ∧ p.writer.body? id = some (.table t))
    (each : ∀ item ∈ items, ∀ i, Conveys p elem item (step (item, i))) :
    Conveys p (.vector elem) (.list items) (do
      let offsets ← items.zipIdx.mapM step
      ofBuild (Build.createOffsetVector offsets)) := by
  intro pre ready
  refine (Ensures.mapM_zipIdx
    (motive := fun passed targets s =>
      Grows p.forced pre s ∧
        List.Forall₂ (fun item target => Brought p elem item target 0 s) passed targets)
    ⟨.refl ready, .nil⟩ ?_).andThen ?_
  · rintro passed targets s item i mem ⟨grown, brought⟩
    refine (each item mem i s grown.ready).mono (fun _ _ halts => halts.lift grown.closed
      (fun typed => ?_) fun _ lacks => .element mem lacks) ?_
    · grind [Catalog.Typed.exists_list]
    rintro target next ⟨grows, last⟩
    exact ⟨grown.trans grows,
      List.rel_append (brought.imp fun _ _ old => old.mono grows) (.cons last .nil)⟩
  rintro targets mid ⟨grown, brought⟩
  have behind : ∀ target ∈ targets, 0 < target ∧ target ≤ mid.offset := by
    refine forall_mem_of_forall₂ brought fun _ target own => ⟨own.positive, ?_⟩
    have reached := own.offset_le
    have room := grown.ready.bounded.offset_eq
    omega
  refine (ends_ofBuild (Build.createOffsetVector_ends
    (fun target mem => Int.le_of_lt (behind target mem).1) grown.ready.bounded)
    fun _ _ failed isClosed => halts_of_full ?_ (grown.closed isClosed)).imp ?_
  · grind
  rintro off post ⟨forwards, n, closed, distances⟩
  have grows := closed.grows grown.ready
  refine ⟨grown.trans grows, ?_, Int.le_of_eq closed.offset_eq, .list ?_ ?_, ?_, ?_⟩
  · have whole := closed.stands.le_distance
    rw [List.length_append, length_littleEndian] at whole
    omega
  · rcases referred with rfl | ⟨id, t, rfl, body⟩
    · exact .string
    · exact .table (Catalog.kind?_of_body? body)
  · intro item mem
    rcases List.getElem?_of_mem mem with ⟨i, hit⟩
    rcases exists_of_forall₂_left brought hit with ⟨_, _, own⟩
    exact own.typed
  · rintro manageable fits f ⟨⟩
    next inner mem =>
      rcases List.getElem?_of_mem mem with ⟨i, hit⟩
      rcases exists_of_forall₂_left brought hit with ⟨_, _, own⟩
      exact own.complete manageable (grows.inlineFits fits) f inner
  · intro short fits
    refine leads_referenceVector notScalar notStruct referred (brought.imp ?_) n closed distances
    intro _ _ own
    exact own.leads short (grows.inlineFits fits)

theorem Encode.asText_eq_ok (taken : asText place v = .ok text) : v = some (.text text) := by
  unfold asText at taken
  grind

theorem conveys_text (taken : asText place (some v) = out) :
    Conveys p .string v
      ((liftM out : Encode Int Text) >>= fun text =>
        ofBuild (Build.createString (Utf8.encode text))) := by
  intro pre ready
  refine ends_liftM_bind (fun err refused _ _ typed => ?_) fun text given => ?_
  · rcases typed.exists_text with ⟨_, rfl⟩
    cases taken.trans refused
  cases asText_eq_ok (taken.trans given)
  refine (ends_ofBuild (Build.createString_ends _ ready.bounded)
    fun _ _ => halts_of_full).imp ?_
  rintro off post ⟨closed, _⟩
  exact ⟨closed.grows ready, (leads_text closed).brought (.text text) fun _ lacks => by cases lacks⟩

/-- A list is conveyed as a vector, if the records in it are as tables. -/
theorem conveys_vector (inner : ∀ fs, Value.record fs ∈ items → TableConveys p fs) :
    Conveys p (.vector elem) (.list items) (writeVector p.writer elem items place) := by
  intro pre ready
  have unknown :
      ∀ err, p.writer.scalarOf elem = .error err ∨ p.writer.structOf elem = .error err →
        Halts p.writer pre (.vector elem) (.list items) err pre := by
    intro err miss _ _ typed
    rcases typed.exists_list with ⟨_, _, isElement, _⟩
    exact (not_or.mpr (isElement.known.no_error err) miss).elim
  cases isScalar : p.writer.scalarOf elem with
  | error err =>
    rw [writeVector.eq_def, isScalar]
    exact unknown err (.inl isScalar)
  | ok hit =>
  cases hit with
  | some kind =>
    rw [writeVector.eq_def, isScalar]
    have stored := scalarOf_eq_ok isScalar
    refine (Ensures.mapM_zipIdx
      (motive := fun passed vs s =>
        pre = s ∧
          List.Forall₂
            (fun item v => ∃ given, item = Value.scalar given ∧ kind.Takes given ∧
              v = kind.coerce given)
            passed vs)
      ⟨rfl, .nil⟩ ?_).andThen ?_
    · rintro passed vs s item i mem ⟨rfl, taken⟩
      show Ensures (liftM (normalize _ _ _)) _ _ _
      rw [← bind_pure (liftM _)]
      refine ends_liftM_bind (fun err refused _ _ typed => ?_) fun v normalized => .pure ?_
      · grind [Catalog.Typed.exists_list, Catalog.Typed.exists_scalar, normalize_of_takes]
      · rcases normalize_spec normalized with ⟨given, ⟨⟩, value_eq⟩
        exact ⟨rfl, List.rel_append taken
          (.cons ⟨given, rfl, takes_of_normalize normalized, value_eq⟩ .nil)⟩
    rintro vs _ ⟨rfl, taken⟩
    refine (ends_ofBuild (Build.createScalarVector_ends kind vs ready.bounded)
      fun _ _ failed => halts_of_full ?_).imp ?_
    · refine failed.imp_right fun failed => failed.resolve_left ?_
      rintro ⟨v, mem, refused⟩
      rcases List.getElem?_of_mem mem with ⟨i, hit⟩
      rcases exists_of_forall₂_right taken hit with ⟨_, _, given, _, _, rfl⟩
      rcases exists_encode_coerce kind given with ⟨bs, enc⟩
      cases refused.symm.trans enc
    rintro off post ⟨chunks, enc, closed⟩
    refine ⟨closed.grows ready, (leads_scalarVector isScalar (taken.imp ?_) enc closed).brought
      (.list (Catalog.isElement_of_scalar? stored) fun item mem => ?_) ?_⟩
    · grind
    · rcases List.getElem?_of_mem mem with ⟨i, hit⟩
      rcases exists_of_forall₂_left taken hit with ⟨_, _, given, rfl, takes, _⟩
      exact .scalar stored takes
    · rintro f ⟨⟩
      next inner _ => cases inner.referred.storage?_eq.symm.trans (Catalog.storage?_scalar stored)
  | none =>
  cases isStruct : p.writer.structOf elem with
  | error err =>
    rw [writeVector.eq_def, isScalar, isStruct]
    exact unknown err (.inr isStruct)
  | ok hit =>
  cases hit with
  | some pair =>
    rw [writeVector.eq_def, isScalar, isStruct]
    refine (writeStructs_ends pair.1 items place isScalar isStruct ready).imp ?_
    rintro off post ⟨grows, typed, leads⟩
    refine ⟨grows, leads.brought typed ?_⟩
    rcases Catalog.structOf_eq_some isStruct with ⟨id, rfl, body⟩
    rintro f ⟨⟩
    next inner _ => cases inner.referred.storage?_eq.symm.trans (Catalog.storage?_struct body)
  | none =>
    cases elem with
    | string =>
      rw [writeVector.eq_def, isStruct]
      exact conveys_references isScalar isStruct (.inl rfl) (fun _ _ _ => conveys_text rfl) pre
        ready
    | named id =>
      rw [writeVector_named isScalar isStruct]
      refine ends_liftM_bind (fun err miss _ _ typed => ?_) ?_
      · grind [Catalog.Typed.exists_list, Catalog.IsElement.exists_table, tableOf_of_body]
      rintro ⟨e, t⟩ known
      have body := tableOf_eq_ok known
      refine conveys_references isScalar isStruct (.inr ⟨id, t, rfl, body⟩)
        (fun item mem i => ?_) pre ready
      cases item with
      | record fs => exact inner fs mem id t e body
      | _ =>
        intro s _
        refine .throw fun _ _ typed => ?_
        rcases typed.exists_table body with ⟨_, other, _⟩
        cases other
    | scalar => cases isScalar
    | vector =>
      rw [writeVector_vector]
      refine .throw fun _ _ typed => ?_
      rcases typed.exists_list with ⟨_, _, isElement, _⟩
      rcases isElement with ⟨⟨⟩⟩

end

/-! ## What a field refers to -/

theorem find?_of_nodup [DecidableEq β] {key : α → β} {elems : List α}
    (nodup : (elems.map key).Nodup) (mem : elem ∈ elems) :
    (elems.find? fun other => key other = key elem) = some elem := by
  induction elems with grind

theorem leads_union {id : Nat} (body : p.writer.body? id = some (.union union)) {bs : List UInt8}
    {pick fs : Fields} {alt : Catalog.Variant} {e : Entry}
    {t : TableType} {off : Int} (named : pick.lookup "type" = some (.text name))
    (held : pick.lookup "value" = some (.record fs))
    (chosen : (union.variants.find? fun alt => Text.ofString alt.name == name) = some alt)
    (known : p.writer.tableOf alt.table = .ok (e, t))
    (leads : Leads p bs (.named alt.table) (.record fs) off 0) :
    Leads p bs (.named id) (.record pick) off alt.tag where
  positive := leads.positive
  offset_le := leads.offset_le
  reads := by
    intro later suffix depth deep noted forward stands gap fits
    rcases leads.reads later suffix depth deep noted forward stands gap fits with
      ⟨res, read, reads⟩
    have nodup : (union.variants.map Catalog.Variant.tag).Nodup := by
      rw [(p.sound.unions id union body).1]
      exact List.nodup_range' 1 (by decide)
    have tagged := find?_of_nodup nodup (List.mem_of_find?_eq_some chosen)
    have name_eq : Text.ofString alt.name = name := by
      simpa using List.find?_some chosen
    have readerBody := p.extended.body_eq body fun _ => by simp
    rcases p.extended.exists_table (tableOf_eq_ok known) with
      ⟨grown, _, grownBody, _, _⟩
    rcases tableOf_of_body grownBody with ⟨other, grownKnown⟩
    simp only [readReferred, grownBody, follow_of_forward stands gap fits, Decode.ofWire, bind,
      Except.bind] at read
    refine ⟨_, ?_, p.union body named held chosen reads⟩
    simp only [readReferred, readerBody, tagged, grownKnown,
      follow_of_forward stands gap fits, Decode.ofWire, bind, Except.bind, read, name_eq]
    rfl

/-- What the writer of a field reports leads to the value, or the field holds its value in place. -/
def ChildBrought (p : Passage) (ty : FieldType) (v : Value) (pre post : Builder Int) :
    Option (Child Int) → Prop
  | some child =>
    Grows p.forced pre post ∧ child.tag < 256 ∧
      Brought p ty v child.offset child.tag post
  | none => pre = post ∧ ¬p.writer.Referred ty

theorem Conveys.child (conveys : Conveys p ty v op) (ready : pre.Ready p.forced) :
    Ensures (op >>= fun off => pure (some ⟨off, 0⟩)) pre
      (fun res post => ChildBrought p ty v pre post res) (Halts p.writer pre ty v) := by
  refine (conveys pre ready).andThen ?_
  rintro off post ⟨grows, brought⟩
  exact .pure ⟨grows, Nat.zero_lt_succ _, brought⟩

theorem writeChild_ends (known : p.writer.Known fld.type)
    (inner : ∀ fs : Fields, sizeOf fs < sizeOf v → TableConveys p fs) (ready : pre.Ready p.forced) :
    Ensures (writeChild p.writer fld v place) pre
      (fun res post => ChildBrought p fld.type v pre post res)
      (Halts p.writer pre fld.type v) := by
  rw [writeChild.eq_def]
  cases type_eq : fld.type with
  | scalar kind => exact .pure ⟨rfl, id⟩
  | string =>
    rw [← bind_assoc]
    exact (conveys_text rfl).child ready
  | vector elem =>
    dsimp only
    split
    · next items =>
        refine (conveys_vector fun fs mem => inner fs ?_).child ready
        have smaller := List.sizeOf_lt_of_mem mem
        grind
    · next other =>
        refine .throw fun _ _ typed => ?_
        grind [Catalog.Typed.exists_list]
  | named id =>
    rw [type_eq] at known
    rcases known with ⟨e, stands⟩
    have hit := Catalog.body?_of_entry? stands rfl
    dsimp only
    rw [ Catalog.entryOf_of_entry? stands, liftM_ok, pure_bind]
    split
    · next t own =>
        rw [own] at hit
        split
        · next fs =>
            refine (inner fs ?_ id t e hit).child ready
            grind
        · next other =>
            refine .throw fun _ _ typed => ?_
            grind [Catalog.Typed.exists_table]
    · next union own =>
        rw [own] at hit
        split
        · next pick =>
            refine ends_liftM_bind (fun err refused _ _ typed => ?_) fun name taken => ?_
            · rcases typed.exists_union hit with ⟨_, name, _, _, _, ⟨⟩, named, _⟩
              rw [named] at refused
              cases refused
            have named := asText_eq_ok taken
            split
            · next none =>
                refine .throw fun _ _ typed => ?_
                rcases typed.exists_union hit with ⟨_, _, _, _, _, ⟨⟩, also, chosen, _⟩
                cases named.symm.trans also
                cases none.symm.trans chosen
            · next alt chosen =>
                split
                · next fs held =>
                    -- The value is one of a union only if its choice is of the table named.
                    have chosenTyped :
                        p.writer.Typed (.named id) (.record pick) →
                          (∃ t, p.writer.body? alt.table = some (.table t)) ∧
                            p.writer.Typed (.named alt.table) (.record fs) := by
                      intro typed
                      rcases typed.exists_union hit with
                        ⟨_, _, _, _, t, ⟨⟩, also, found, kept, target, chosenTyped⟩
                      cases named.symm.trans also
                      cases chosen.symm.trans found
                      cases held.symm.trans kept
                      exact ⟨⟨t, target⟩, chosenTyped⟩
                    refine ends_liftM_bind (fun err miss _ _ typed => ?_) ?_
                    · grind [tableOf_of_body]
                    rintro ⟨target, t⟩ known
                    have smaller : sizeOf fs < sizeOf (Value.record pick) := by
                      have nested := Fields.sizeOf_lt_of_lookup held
                      grind
                    refine (inner fs smaller alt.table t target (tableOf_eq_ok known) pre
                      ready).bind (fun _ _ halts => halts.lift (fun isClosed => isClosed)
                      (fun typed => (chosenTyped typed).2)
                      fun _ lacks => .variant hit named chosen held lacks) ?_
                    rintro off post ⟨grows, brought⟩
                    have small : alt.tag < 256 := by
                      rcases p.sound.unions id union hit with ⟨tags, n⟩
                      have mem := List.mem_map_of_mem (f := Catalog.Variant.tag)
                        (List.mem_of_find?_eq_some chosen)
                      rw [tags, List.mem_range'_1] at mem
                      omega
                    refine .pure ⟨grows, small, brought.positive, brought.offset_le,
                      .union hit named chosen held (tableOf_eq_ok known) brought.typed,
                      fun manageable fits f lacks => ?_, fun short fits =>
                        leads_union hit named held chosen known (brought.leads short fits)⟩
                    cases lacks with
                    | own body | field body => cases hit.symm.trans body
                    | variant body also found kept lacking =>
                      grind [Brought.complete]
                · next other =>
                    refine .throw fun _ _ typed => ?_
                    grind [Catalog.Typed.exists_union]
        · next other =>
            refine .throw fun _ _ typed => ?_
            grind [Catalog.Typed.exists_union]
    · next notTable notUnion =>
        refine .pure ⟨rfl, ?_⟩
        rintro (⟨t, also⟩ | ⟨union, also⟩)
        · exact notTable t (Option.some.inj (hit.symm.trans also))
        · exact notUnion union (Option.some.inj (hit.symm.trans also))

/-! ## Children of a table -/

/-- What the writer of a record has noted of a field: where what the field refers to stands, or
nothing. -/
def ChildReported (p : Passage) (fs : Fields) (b : Builder Int) (fld : TableField) :
    Option (Child Int) → Prop
  | some child =>
    child.tag < 256 ∧
      ∃ v,
        fs.present? fld.name = some v ∧
          Brought p fld.type v child.offset child.tag b
  | none => fs.present? fld.name = none ∨ ¬p.writer.Referred fld.type

/-- The children of a record are those of the fields of its table. -/
structure ChildrenReported (p : Passage) (fs : Fields) (t : TableType)
    (kids : List (String × Child Int)) (b : Builder Int) : Prop where
  each : ∀ fld ∈ t.fields, fld.deprecated = false → ChildReported p fs b fld (kids.lookup fld.name)
  known : ∀ name child, kids.lookup name = some child → ∃ fld, ChildReported p fs b fld (some child)

section

variable {fs : Fields} {t : TableType} {kids : List (String × Child Int)}
  {pre post : Builder Int}

theorem ChildReported.mono
    (reported : ChildReported p fs pre fld child) (grows : Grows p.forced pre post) :
    ChildReported p fs post fld child := by
  cases child with
  | none => exact reported
  | some child =>
    grind [Brought.mono, ChildReported]

/-- A field that the record has and that is stored by reference has been brought. -/
theorem ChildReported.brought
    (reported : ChildReported p fs post fld child) (here : fs.present? fld.name = some v)
    (referred : p.writer.Referred fld.type) : ∃ off tag, Brought p fld.type v off tag post := by
  cases child with
  | none =>
    rcases reported with absent | inPlace
    · cases absent.symm.trans here
    · exact (inPlace referred).elim
  | some child =>
    rcases reported with ⟨_, _, also, brought⟩
    cases here.symm.trans also
    exact ⟨_, _, brought⟩

theorem ChildReported.holds (reported : ChildReported p fs post fld (kids.lookup fld.name))
    (short : ∀ id t, p.writer.body? id = some (.table t) → t.slotCount ≤ 32765)
    (fits : post.InlineFits) : ChildHolds p fs kids post.written fld := by
  unfold ChildHolds
  cases hit : kids.lookup fld.name with
  | none =>
    rw [hit] at reported
    exact reported
  | some child =>
    rw [hit] at reported
    rcases reported with ⟨small, v, here, brought⟩
    exact ⟨small, v, here, brought.leads short fits⟩

/-- What has been collected for fields of different names is found under their names. -/
theorem lookup_collected {rel : TableField → Option (Child Int) → Prop}
    (all :
      List.Forall₂ (fun fld res => ∃ child, res = child.map (fld.name, ·) ∧ rel fld child) live
        results) :
    (∀ name child, (name, child) ∈ results.filterMap id →
      ∃ fld ∈ live, fld.name = name ∧ rel fld (some child)) ∧
      ((live.map Catalog.TableField.name).Nodup →
        ∀ fld ∈ live, rel fld ((results.filterMap id).lookup fld.name)) := by
  induction all with
  | nil => exact ⟨fun _ _ mem => (by cases mem), fun _ _ mem => (by cases mem)⟩
  | @cons hd res rest others own all ih =>
    rcases own with ⟨child, rfl, holds⟩
    cases child with
    | none =>
      refine ⟨fun name child mem => ?_, fun nodup fld mem => ?_⟩
      · rcases ih.1 name child mem with ⟨fld, listed, found⟩
        exact ⟨fld, List.mem_cons_of_mem _ listed, found⟩
      rw [List.map_cons, List.nodup_cons] at nodup
      rcases List.mem_cons.mp mem with rfl | later
      · -- No other field has the name, so none was reported under it.
        grind
      · exact ih.2 nodup.2 fld later
    | some child =>
      refine ⟨fun name other mem => ?_, fun nodup fld mem => ?_⟩
      · grind
      rcases List.mem_cons.mp mem with rfl | later
      · grind
      · grind

theorem writeReferred_ends {id : Nat} (body : p.writer.body? id = some (.table t))
    (mem : fld ∈ t.fields) (live : fld.deprecated = false)
    (inner : ∀ own : Fields, sizeOf own < sizeOf fs → TableConveys p own)
    (ready : pre.Ready p.forced) (e : Entry) :
    Ensures (writeReferred p.writer e fs fld) pre
      (fun res post => Grows p.forced pre post ∧
        ∃ child, res = child.map (fld.name, ·) ∧ ChildReported p fs post fld child)
      (Halts p.writer pre (.named id) (.record fs)) := by
  unfold writeReferred
  split
  · next v here =>
      have smaller := Fields.sizeOf_lt_of_present here
      have known := ((p.sound.tables _ t body).isMember mem).known
      refine (writeChild_ends known (fun own nested => inner own (Nat.lt_trans nested smaller))
        ready).bind (fun _ _ halts => halts.lift (fun isClosed => isClosed) (fun typed => ?_)
        fun _ lacks => .field body mem live here lacks) fun child post own => .pure ?_
      · grind [Catalog.Typed.exists_table]
      cases child with
      | none =>
        rcases own with ⟨rfl, inPlace⟩
        exact ⟨.refl ready, none, rfl, .inr inPlace⟩
      | some child =>
        rcases own with ⟨grows, small, brought⟩
        exact ⟨grows, some child, rfl, small, v, here, brought⟩
  · next missing => exact .pure ⟨.refl ready, none, rfl, .inl missing⟩

theorem writeChildren_ends {id : Nat} (body : p.writer.body? id = some (.table t))
    (inner : ∀ own : Fields, sizeOf own < sizeOf fs → TableConveys p own)
    (ready : pre.Ready p.forced) (e : Entry) :
    Ensures ((t.fields.filter fun f => !f.deprecated).mapM (writeReferred p.writer e fs)) pre
      (fun results post => Grows p.forced pre post ∧
        ChildrenReported p fs t (results.filterMap fun res => res) post)
      (Halts p.writer pre (.named id) (.record fs)) := by
  refine (Ensures.mapM
    (motive := fun passed results s =>
      Grows p.forced pre s ∧
        List.Forall₂
          (fun fld res => ∃ child, res = child.map (fld.name, ·) ∧ ChildReported p fs s fld child)
          passed results)
    ⟨.refl ready, .nil⟩ ?_).imp ?_
  · rintro passed results s fld listed ⟨grown, reported⟩
    rcases List.mem_filter.mp listed with ⟨mem, live⟩
    refine (writeReferred_ends body mem (by simpa using live) inner grown.ready e).mono
      (fun _ _ halts => halts.lift grown.closed (fun typed => typed) fun _ lacks => lacks) ?_
    rintro res next ⟨grows, last⟩
    refine ⟨grown.trans grows, List.rel_append (reported.imp ?_) (.cons last .nil)⟩
    grind [ChildReported.mono]
  · rintro results post ⟨grown, reported⟩
    rcases lookup_collected reported with ⟨known, found⟩
    refine ⟨grown, fun fld mem live => ?_, fun name child hit => ?_⟩
    · refine found ?_ fld (List.mem_filter.mpr ⟨mem, by rw [live]; rfl⟩)
      exact (p.sound.tables id t body).nodup_names.sublist (List.filter_sublist.map _)
    · rcases known name child (mem_of_lookup hit) with ⟨fld, _, _, reported⟩
      exact ⟨fld, reported⟩

end

/-! ## Tables -/

/-- A table has been opened, filled and ended. -/
structure TableFilled (p : Passage) (fs : Fields) (kids : List (String × Child Int))
    (t : TableType) (pre opened full : Builder Int) (obj : Int) (slots : List Int)
    (post : Builder Int) : Prop where
  length_eq : slots.length = t.slotCount
  written : SlotsWritten p fs kids opened (t.writeOrder p.writer) slots full
  closed : ClosedTable full slots obj post
  opened_written : opened.written = pre.written
  forced_eq : full.forceDefaults = p.forced
  vtables_eq : full.vtables = pre.vtables
  start_eq : full.objectStart = opened.offset

section

variable {fs : Fields} {kids : List (String × Child Int)} {t : TableType}
  {pre opened full post : Builder Int} {obj : Int} {slots : List Int}

namespace TableFilled

variable (whole : TableFilled p fs kids t pre opened full obj slots post)
include whole

theorem isSuffix : pre.written <:+ full.written :=
  whole.opened_written ▸ whole.written.isSuffix

theorem lt_object : (pre.written.length : Int) < obj := by
  have above := whole.closed.lt_object
  have longer := whole.isSuffix.length_le
  omega

theorem grows : Grows p.forced pre post := by
  have closed := whole.closed
  refine ⟨⟨closed.valid.toBounded, ?_, closed.vtablesStand⟩,
    whole.isSuffix.trans closed.isSuffix, ?_, fun _ => ?_⟩
  · exact (congrArg Setting.forceDefaults closed.setting_eq).trans whole.forced_eq
  · rw [← whole.vtables_eq]
    exact closed.isPrefix
  · exact congrArg Setting.nested closed.setting_eq

theorem indexed
    (fits : post.InlineFits) (short : t.slotCount ≤ 32765) (suffix : post.written <:+ later) :
    Indexed later obj slots := by
  have len := whole.length_eq
  refine whole.closed.indexed fits (by omega) ?_ suffix
  intro noted mem filled
  rw [whole.start_eq]
  exact whole.written.inside noted mem filled

variable (own : Catalog.SoundTable p.writer t)
include own

/-- The slot of a field whose value is not a scalar is empty if the field is deprecated or the
record does not have it. -/
theorem empty_iff (kidsReported : ChildrenReported p fs t kids pre)
    (mem : f ∈ t.fields) (notScalar : p.writer.scalar? f.type = none) :
    slots[f.slot]?.getD 0 = 0 ↔ f.deprecated = true ∨ fs.present? f.name = none := by
  cases live : f.deprecated with
  | true =>
    refine iff_of_true ?_ (.inl rfl)
    rcases Nat.lt_or_ge f.slot slots.length with inside | beyond
    · rw [whole.written.empty _ inside (own.slot_not_written mem live)]
      rfl
    grind
  | false =>
    have reported := kidsReported.each f mem live
    rcases whole.written.holds _ (Catalog.value_mem_writeOrder mem live) with ⟨noted, hit, holds⟩
    rw [hit]
    cases holds with
    | default isScalar | scalar isScalar =>
      cases notScalar.symm.trans (scalarOf_eq_ok isScalar)
    | absentStruct _ _ missing => exact iff_of_true rfl (.inr missing)
    | struct _ _ here _ _ filled => exact iff_of_false filled (by simp [here])
    | absentChild isReferred notStruct missing =>
      rw [missing] at reported
      have referred := (own.isMember mem).referred isReferred notStruct
      exact iff_of_true rfl (.inr (reported.resolve_right (not_not_intro referred)))
    | child _ _ known filled =>
      rw [known] at reported
      rcases reported with ⟨_, v, here, _⟩
      exact iff_of_false filled (by simp [here])

theorem typed (kidsReported : ChildrenReported p fs t kids pre)
    {id : Nat} (body : p.writer.body? id = some (.table t)) :
    p.writer.Typed (.named id) (.record fs) := by
  refine .table body fun f mem live v here => ?_
  rcases whole.written.holds _ (Catalog.value_mem_writeOrder mem live) with ⟨noted, hit, holds⟩
  cases holds with
  | default _ typed | scalar _ typed => exact typed v here
  | absentStruct _ _ missing => cases missing.symm.trans here
  | struct _ _ also typed =>
    cases here.symm.trans also
    exact typed
  | absentChild notScalar notStruct | child notScalar notStruct =>
    have referred := (own.isMember mem).referred notScalar notStruct
    rcases (kidsReported.each f mem live).brought here referred with ⟨_, _, brought⟩
    exact brought.typed

theorem leads {id : Nat} (body : p.writer.body? id = some (.table t))
    (fits : post.InlineFits) (short : t.slotCount ≤ 32765)
    (inner : ∀ fld ∈ t.fields, fld.deprecated = false → ChildHolds p fs kids pre.written fld) :
    Leads p post.written (.named id) (.record fs) obj 0 := by
  have lt_object := whole.lt_object
  have object_le := whole.closed.object_le
  have room := length_written_le post
  have limit := whole.closed.valid.capacity_lt
  refine ⟨by omega, object_le, ?_⟩
  intro later suffix depth deep noted forward stands gap near
  rcases p.extended.exists_table body with ⟨grown, extra, grownBody, fields_eq, beyond⟩
  have grownSound := p.readerSound.tables id grown grownBody
  have indexed := whole.indexed fits short suffix
  simp only [readReferred, grownBody, follow_of_forward stands gap near, Decode.ofWire, bind,
    Except.bind]
  cases depth with
  | zero => omega
  | succ depth =>
    refine readTable_spec body grownBody fields_eq ?_ ?_
    · intro fld mem live
      refine readField_spec own indexed (by omega) (by omega)
        (whole.grows.isSuffix.trans suffix) lt_object ?_ mem live (inner fld mem live)
      intro write listed
      rcases whole.written.holds write listed with ⟨noted, hit, holds⟩
      exact ⟨noted, hit, holds.mono (whole.closed.isSuffix.trans suffix)⟩
    · intro fld mem _
      refine readField_extra grownSound indexed ?_ ?_ _
      · grind
      · rw [whole.length_eq]
        exact beyond _ (List.mem_flatMap.mpr ⟨fld, mem, fld.slot_mem_slots⟩)

end TableFilled

theorem Indexed.exists_fieldOffset (indexed : Indexed bs obj slots) (i : Nat) :
    ∃ off : Nat,
      (Buffer.ofList bs).fieldOffset (spot bs obj) (Decode.slotEntry i : Int) = .ok off ∧
        (off = 0 ↔ slots[i]?.getD 0 = 0) := by
  cases hit : slots[i]? with
  | none => exact ⟨0, indexed.fieldOffset_empty (by rw [hit]; rfl), by simp⟩
  | some noted =>
    by_cases empty : noted = 0
    · exact ⟨0, indexed.fieldOffset_empty (by rw [hit, empty]; rfl), by simp [empty]⟩
    grind [fieldOffset_filled]

/-- Looking for required fields changes nothing, and it stops at one whose slot is empty. -/
theorem Encode.checkRequired_ends (t : TableType)
    (indexed : prop → Indexed post.memory obj slots) :
    Ensures (checkRequired t obj) post
      (fun _ s => post = s ∧ (prop → ∀ f ∈ t.fields, f.required = true → slots[f.slot]?.getD 0 ≠ 0))
      fun err s => post = s ∧
        (prop → ∃ f ∈ t.fields, f.required = true ∧ slots[f.slot]?.getD 0 = 0 ∧
          err = missing f) := by
  refine Ensures.forM
    (motive := fun passed s => post = s ∧
      (prop → ∀ f : TableField, f ∈ passed → f.required = true → slots[f.slot]?.getD 0 ≠ 0))
    ⟨rfl, fun _ _ mem => (by cases mem)⟩ ?_
  rintro passed s f partway ⟨rfl, filled⟩
  have listed : f ∈ t.fields := partway.subset (List.mem_append_right _ List.mem_cons_self)
  have step (own : prop → f.required = true → slots[f.slot]?.getD 0 ≠ 0) (holds : prop) :
      ∀ other ∈ passed ++ [f], other.required = true → slots[other.slot]?.getD 0 ≠ 0 := by
    intro other mem
    rcases List.mem_append.mp mem with old | new
    · exact filled holds other old
    · cases List.mem_singleton.mp new
      exact own holds
  split
  · next required =>
      have found (holds : prop) := (indexed holds).exists_fieldOffset f.slot
      rw [spot, length_memory] at found
      refine .get_bind ?_
      dsimp only
      split
      · next empty =>
          refine .throw ⟨rfl, fun holds => ⟨f, listed, required, ?_, rfl⟩⟩
          rcases found holds with ⟨off, also, zero_iff⟩
          cases empty.symm.trans also
          exact zero_iff.mp rfl
      · next off full hit =>
          refine .pure ⟨rfl, step fun holds _ empty => ?_⟩
          rcases found holds with ⟨other, also, zero_iff⟩
          cases hit.symm.trans also
          exact full (zero_iff.mpr empty)
      · next err refused =>
          refine .throw ⟨rfl, fun holds => ?_⟩
          rcases found holds with ⟨off, also, _⟩
          cases refused.symm.trans also
  · next optional => exact .pure ⟨rfl, step fun _ required => (optional required).elim⟩

/-- A record is written as a table after what its fields refer to. -/
theorem writeTable_ends {id : Nat} (body : p.writer.body? id = some (.table t))
    (inner : ∀ own : Fields, sizeOf own < sizeOf fs → TableConveys p own)
    (ready : pre.Ready p.forced) (e : Entry) :
    Ensures (writeTable p.writer e t fs) pre
      (fun obj post => ∃ kids mid opened full slots,
        Grows p.forced pre mid ∧ ChildrenReported p fs t kids mid ∧
          TableFilled p fs kids t mid opened full obj slots post ∧
          (post.InlineFits ∧ t.slotCount ≤ 32765 →
            ∀ f ∈ t.fields, f.required = true → slots[f.slot]?.getD 0 ≠ 0))
      (Halts p.writer pre (.named id) (.record fs)) := by
  have own := p.sound.tables id t body
  rw [writeTable_eq]
  refine (writeChildren_ends body inner ready e).andThen ?_
  rintro results mid ⟨grown, reported⟩
  refine (ends_ofBuild (Build.startTable_ends t.slotCount mid)
    fun _ _ failed isClosed manageable _ => ?_).andThen ?_
  · grind [Catalog.Manageable.short, Grows.closed]
  rintro _ opened opened_eq
  have midBounded := grown.ready.bounded
  have openedBounded : opened.Bounded := by
    rw [opened_eq]
    exact midBounded.of_setting rfl rfl rfl (Int.le_refl _)
  have opened_forced : opened.forceDefaults = p.forced := by
    rw [opened_eq]
    exact grown.ready.forced_eq
  have opened_vtables : opened.vtables = mid.vtables := by rw [opened_eq]
  have opened_written : opened.written = mid.written := by rw [opened_eq]; rfl
  have opened_start : opened.objectStart = opened.offset := by rw [opened_eq]; rfl
  have opened_nested : opened.nested = true := by rw [opened_eq]
  refine (writeSlots_ends own own.nodup_writeOrder (fun write mem =>
    ⟨own.slot_lt_of_mem_writeOrder mem, (Catalog.field_of_mem_writeOrder mem).1⟩)
    openedBounded opened_forced (by rw [opened_eq]) (fun name child hit => ?_)
    (fun name child hit => ?_) e).bind
    (fun _ _ halts _ manageable typed => .inl (halts (manageable.stores id t body) ?_)) ?_
  · rcases reported.known name child hit with ⟨_, _, _, _, brought⟩
    have reached := brought.offset_le
    have room := openedBounded.offset_eq
    rw [opened_written] at room
    exact ⟨brought.positive, by omega⟩
  · rcases reported.known name child hit with ⟨_, small, _⟩
    exact small
  · grind [Catalog.field_of_mem_writeOrder, Catalog.Typed.exists_table]
  rintro _ full ⟨slots, len, raw⟩
  have vtables_eq : full.vtables = mid.vtables :=
    (congrArg Setting.vtables raw.setting_eq).trans opened_vtables
  have stand : VtablesStand full.written full.vtables := by
    rw [vtables_eq]
    exact (opened_written ▸ grown.ready.stand).mono raw.isSuffix
  refine (ends_ofBuild (Build.endTable_ends raw.bounded stand
    (congrArg Setting.slots raw.setting_eq)) fun _ _ failed _ _ _ => ?_).andThen
    fun obj post closed => ?_
  · rcases failed with isClosed | full
    · cases isClosed.symm.trans ((congrArg Setting.nested raw.setting_eq).trans opened_nested)
    · exact .inl (atLimit_of_isFull full.1)
  have whole : TableFilled p fs (results.filterMap fun res => res) t mid opened full obj slots
      post :=
    ⟨len, raw, closed, opened_written,
      (congrArg Setting.forceDefaults raw.setting_eq).trans opened_forced, vtables_eq,
      (congrArg Setting.objectStart raw.setting_eq).trans opened_start⟩
  refine (ends_ofBuild (checkRequired_ends t
    fun limits : post.InlineFits ∧ t.slotCount ≤ 32765 =>
      whole.indexed limits.1 limits.2 (written_suffix_memory post))
    fun err s failed _ manageable _ => ?_).andThen ?_
  · rcases failed with ⟨rfl, lacking⟩
    by_cases fits : post.InlineFits
    · rcases lacking ⟨fits, manageable.short id t body⟩ with ⟨f, mem, required, empty, rfl⟩
      have notScalar := manageable.optional id t body f mem required
      exact .inr ⟨f, .own body mem required ((whole.empty_iff own reported mem notScalar).mp empty),
        rfl⟩
    · exact .inl (.inr fits)
  grind [Ensures.pure]

end

/-- A record is conveyed as a table: by the nesting of the record. -/
theorem tableConveys (fs : Fields) : TableConveys p fs := by
  induction size : sizeOf fs using Nat.strongRecOn generalizing fs with
  | ind bound ih =>
  subst size
  intro id t e body pre ready
  have own := p.sound.tables id t body
  refine (writeTable_ends body (fun own smaller => ih (sizeOf own) smaller own rfl) ready e).imp ?_
  rintro obj post ⟨kids, mid, opened, full, slots, grown, reported, whole, filled⟩
  have lt_object := whole.lt_object
  refine ⟨grown.trans whole.grows, by omega, whole.closed.object_le,
    whole.typed own reported body, fun manageable fits f lacks => ?_, fun short fits => ?_⟩
  · cases lacks with
    | own hit mem required empty =>
      grind [Catalog.Manageable.optional, Catalog.Manageable.short, TableFilled.empty_iff]
    | field hit mem live here inner =>
      cases body.symm.trans hit
      rcases (reported.each _ mem live).brought here inner.referred with ⟨_, _, brought⟩
      exact brought.complete manageable (whole.grows.inlineFits fits) f inner
    | variant hit => cases body.symm.trans hit
  · refine whole.leads own body fits (short id t body) fun fld mem live => ?_
    exact (reported.each fld mem live).holds short (whole.grows.inlineFits fits)

end FlatSchema
