import FlatSchema.Proofs.ClosedCatalog
import FlatSchema.Proofs.Lookup
import FlatSchema.Proofs.Outcome
import FlatSchema.Record.Decode

/-!
# What reading can come to

A reader follows references, so what it makes of a table depends on the bytes
and on what it makes of the tables that these lead to.  This module takes one
level of reading apart.  Over a closed catalog it fails only where a read
leaves the buffer or a nested read fails, and two readers that agree on the
nested tables agree on the table itself.
-/

namespace FlatSchema

open Catalog Extent

/-! ## Reads of a buffer -/

namespace Buffer

variable {ν : Type} [Extent ν]

/-- A read that fails only where it leaves the buffer. -/
abbrev Ranged {α : Type} (out : Except WireError α) : Prop :=
  FailsOnly (· = .outOfRange) out

variable (buf : Buffer) (pos : ν)

theorem ranged_slice (width : Nat) : Ranged (buf.slice pos width) := by
  unfold slice
  split
  · exact .pure _
  · exact .error rfl

theorem ranged_readScalar (kind : ScalarKind) (pos : ν) : Ranged (buf.readScalar kind pos) :=
  (buf.ranged_slice pos kind.size).map _

theorem ranged_readNat (width : Nat) (pos : ν) : Ranged (buf.readNat width pos) :=
  (buf.ranged_slice pos width).map _

theorem ranged_follow : Ranged (buf.follow pos) :=
  (buf.ranged_readNat 4 pos).bind fun _ _ => .pure _

theorem ranged_fieldOffset (t e : ν) : Ranged (buf.fieldOffset t e) := by
  refine ((buf.ranged_readNat 4 t).map _).bind fun back _ => ?_
  grind [Alike.bind, ranged_readNat, Alike.pure]

theorem ranged_readText : Ranged (buf.readText pos) := by
  refine (buf.ranged_follow pos).bind fun header _ => ?_
  exact (buf.ranged_readNat 4 header).bind fun _ _ => .pure _

theorem ranged_vectorStart : Ranged (buf.vectorStart pos) :=
  (buf.ranged_follow pos).bind fun _ _ => .pure _

theorem ranged_vectorLength : Ranged (buf.vectorLength pos) :=
  (buf.ranged_follow pos).bind fun header _ => buf.ranged_readNat 4 header

end Buffer

/-! ## Readers -/

namespace Decode

variable {ν : Type} [Extent ν] {allowed : RecordError → Prop}

/-- A read of the buffer fails only where it leaves the buffer. -/
theorem failsOnly_ofWire (outOfRange : allowed (.wire .outOfRange))
    {out : Except WireError α} (ranged : Buffer.Ranged out) : FailsOnly allowed (ofWire out) := by
  cases out with
  | ok v => exact .pure v
  | error failure =>
    cases ranged.2 failure rfl
    exact .error outOfRange

theorem failsOnly_readScalar (outOfRange : allowed (.wire .outOfRange)) (buf : Buffer)
    (kind : ScalarKind) (pos : ν) : FailsOnly allowed (readScalar buf kind pos) :=
  (failsOnly_ofWire outOfRange (buf.ranged_readScalar kind pos)).bind fun _ _ => .pure _

/-- Whatever a known type is looked up for is found. -/
theorem failsOnly_scalarOf {c : Catalog} (known : c.Known ty) :
    FailsOnly allowed (c.scalarOf ty) := by
  rw [known.scalarOf_eq]
  exact .pure _

theorem failsOnly_structOf {c : Catalog} (known : c.Known ty) :
    FailsOnly allowed (c.structOf ty) := by
  rcases known.exists_structOf with ⟨hit, found⟩
  rw [found]
  exact .pure hit

/-- A struct is never nested deeper than its rank, so it is read to its end. -/
theorem failsOnly_readStruct (outOfRange : allowed (.wire .outOfRange)) (closed : c.Closed)
    (ranked :
      ∀ id struct, c.body? id = some (.struct struct) →
        SoundStruct c rank id struct) (buf : Buffer) {id depth : Nat}
    (body : c.body? id = some (.struct struct))
    (deep : rank id < depth) (pos : ν) : FailsOnly allowed (readStruct buf c depth struct pos) := by
  induction depth generalizing id struct pos with
  | zero => cases deep
  | succ depth ih =>
    cases closed.body body with
    | struct isInline =>
      refine .bind (.mapM fun f mem => ?_) fun _ _ => .pure _
      have known := (isInline f mem).known
      refine (failsOnly_structOf known).bind fun hit isStruct => ?_
      rcases hit with _ | ⟨inner, nested⟩
      · refine (failsOnly_scalarOf known).bind fun hit _ => ?_
        cases hit with
        | some kind => exact (failsOnly_readScalar outOfRange buf kind _).bind fun _ _ => .pure _
        | none => exact .pure _
      · rcases structOf_eq_some isStruct with ⟨_, named, nestedBody⟩
        have below := (ranked id struct body).lower f mem _ nested named nestedBody
        exact (ih nestedBody (by omega) _).bind fun _ _ => .pure _

theorem alike_readElements (each : ∀ i, Alike allowed (left i) (right i)) :
    Alike allowed (readElements left i n) (readElements right i n) := by
  induction n generalizing i with
  | zero => exact .pure []
  | succ n ih =>
    refine (each i).bind fun v _ => ?_
    exact ih.bind fun rest _ => .pure _

/-- The bytes of the table at a position refer to another position: directly, or by an element of
a vector. -/
inductive Refers (buf : Buffer) (t : ν) : ν → Prop where
  | direct {slot off : Nat} {target : ν} (stored : buf.fieldOffset t (slotEntry slot) = .ok off)
      (here : off ≠ 0) (followed : buf.follow (t + ofInt off) = .ok target) : Refers buf t target
  | element {slot off i : Nat} {start target : ν}
      (stored : buf.fieldOffset t (slotEntry slot) = .ok off) (here : off ≠ 0)
      (begins : buf.vectorStart (t + ofInt off) = .ok start)
      (followed : buf.follow (start + ofInt (i * 4 : Nat)) = .ok target) : Refers buf t target

/-- The tag that tells which variant a union field holds; none is stored for no variant. -/
def unionTag (buf : Buffer) (typeSlot : Option Nat) (t : ν) : Except RecordError Nat :=
  match typeSlot with
  | some slot => do
      let off ← ofWire (buf.fieldOffset t (slotEntry slot))
      if off = 0 then return 0 else ofWire (buf.readNat 1 (t + ofInt off))
  | none => return 0

/-- The variant of a union that a tag stands for. -/
def readVariant (buf : Buffer) (c : Catalog)
    (nested : TableType → ν → Except RecordError Value) (union : UnionType)
    (pos : ν) (tag : Nat) : Except RecordError Value :=
  match union.variants.find? fun alt => alt.tag = tag with
  | some alt => do
      let target ← ofWire (buf.follow pos)
      let (_, t) ← c.tableOf alt.table
      let v ← nested t target
      return .record [("type", .text (Text.ofString alt.name)), ("value", v)]
  | none => return .null

theorem readUnion_eq (buf : Buffer) (c : Catalog)
    (nested : TableType → ν → Except RecordError Value) (union : UnionType)
    (typeSlot : Option Nat) (t pos : ν) :
    readUnion buf c nested union typeSlot t pos =
      unionTag buf typeSlot t >>= readVariant buf c nested union pos := by
  cases typeSlot with
  | none => rfl
  | some slot =>
    simp only [readUnion, unionTag, bind_assoc]
    congr 1
    funext off
    split <;> rfl

theorem failsOnly_unionTag (outOfRange : allowed (.wire .outOfRange)) (buf : Buffer)
    (typeSlot : Option Nat) (t : ν) : FailsOnly allowed (unionTag buf typeSlot t) := by
  cases typeSlot with
  | none => exact .pure 0
  | some slot =>
    refine (failsOnly_ofWire outOfRange (buf.ranged_fieldOffset _ _)).bind fun off _ => ?_
    split
    · exact .pure 0
    · exact failsOnly_ofWire outOfRange (buf.ranged_readNat 1 _)

theorem eq_ok_of_ofWire {v : α} (read : ofWire out = .ok v) : out = .ok v := by
  cases out with
  | ok own => cases read; rfl
  | error failure => cases read

section

variable
  {c : Catalog}
  {buf : Buffer}
  {left right : TableType → ν → Except RecordError Value}

/-- Two readers of tables are alike at every position that a table refers to. -/
def AlikeFrom (allowed : RecordError → Prop) (c : Catalog) (buf : Buffer) (t : ν)
    (left right : TableType → ν → Except RecordError Value) : Prop :=
  ∀ inner target,
    ClosedBody c (.table inner) → Refers buf t target →
      Alike allowed (left inner target) (right inner target)

variable
  (outOfRange : allowed (.wire .outOfRange))
  (closed : c.Closed)
include outOfRange closed

theorem failsOnly_struct (sound : c.Sound) {id : Nat}
    (body : c.body? id = some (.struct struct)) (pos : ν) :
    FailsOnly allowed (readStruct buf c c.entries.length struct pos) := by
  rcases sound.structs with ⟨rank, ranked⟩
  exact failsOnly_readStruct outOfRange closed (fun id struct body => (ranked id struct body).2)
    buf body (ranked id struct body).1 pos

variable
  {t : ν}
  (alike : AlikeFrom allowed c buf t left right)
  {slot off : Nat}
  (stored : buf.fieldOffset t (slotEntry slot) = .ok off)
  (here : off ≠ 0)
include alike stored here

theorem alike_readVector (sound : c.Sound) {elem : FieldType} (isElement : IsElement c elem) :
    Alike allowed (readVector buf c left elem (t + ofInt off))
      (readVector buf c right elem (t + ofInt off)) := by
  refine (failsOnly_ofWire outOfRange (buf.ranged_vectorStart _)).bind fun start begins => ?_
  refine (failsOnly_ofWire outOfRange (buf.ranged_vectorLength _)).bind fun len _ => ?_
  refine (failsOnly_scalarOf isElement.known).bind fun hit isScalar => ?_
  cases hit with
  | some kind =>
    exact (alike_readElements fun i => failsOnly_readScalar outOfRange buf kind _).bind
      fun _ _ => .pure _
  | none =>
  refine (failsOnly_structOf isElement.known).bind fun hit isStruct => ?_
  rcases hit with _ | ⟨e, struct⟩
  · cases elem with
    | scalar | vector => exact .pure _
    | string =>
      refine (alike_readElements fun i => ?_).bind fun _ _ => .pure _
      exact (failsOnly_ofWire outOfRange (buf.ranged_readText _)).bind fun _ _ => .pure _
    | named id =>
      rcases isElement.exists_table isScalar isStruct with ⟨inner, body⟩
      rcases tableOf_of_body body with ⟨e, known⟩
      refine (alike_readElements fun i => ?_).bind fun _ _ => .pure _
      refine (failsOnly_ofWire outOfRange (buf.ranged_follow _)).bind fun target followed => ?_
      refine .known known ?_
      exact alike inner target (closed.body body)
        (.element stored here (eq_ok_of_ofWire begins) (eq_ok_of_ofWire followed))
  · rcases structOf_eq_some isStruct with ⟨_, _, body⟩
    exact (alike_readElements fun i => failsOnly_struct outOfRange closed sound body _).bind
      fun _ _ => .pure _

theorem alike_readUnion
    (isTable : ∀ alt ∈ union.variants, c.kind? alt.table = some .table) (typeSlot : Option Nat) :
    Alike allowed (readUnion buf c left union typeSlot t (t + ofInt off))
      (readUnion buf c right union typeSlot t (t + ofInt off)) := by
  rw [readUnion_eq, readUnion_eq]
  refine (failsOnly_unionTag outOfRange buf typeSlot t).bind fun tag _ => ?_
  unfold readVariant
  split
  · next alt chosen =>
      rcases exists_table (isTable alt (List.mem_of_find?_eq_some chosen)) with
        ⟨e, inner, stands, own⟩
      refine (failsOnly_ofWire outOfRange (buf.ranged_follow _)).bind fun target followed => ?_
      have known := tableOf_of_entry? stands own
      have tableBody := body?_of_entry? stands own
      refine .known known ?_
      refine (alike inner target (closed.body tableBody)
        (.direct stored here (eq_ok_of_ofWire followed))).bind fun _ _ => .pure _
  · exact .pure _

end

section

variable
  {c : Catalog}
  {buf : Buffer}
  {left right : TableType → ν → Except RecordError Value}
  (outOfRange : allowed (.wire .outOfRange))
  (closed : c.Closed)
  (sound : c.Sound)
  {t : ν}
  (alike : AlikeFrom allowed c buf t left right)
include outOfRange closed sound alike

theorem alike_readField {f : TableField} (isMember : IsMember c f.type) :
    Alike allowed (readField buf c left t f) (readField buf c right t f) := by
  refine (failsOnly_ofWire outOfRange (buf.ranged_fieldOffset _ _)).bind fun off read => ?_
  have stored := eq_ok_of_ofWire read
  refine (failsOnly_scalarOf isMember.known).bind fun hit _ => ?_
  cases hit with
  | some kind =>
    grind [Alike.map, failsOnly_readScalar, Alike.pure]
  | none =>
  dsimp only
  split
  · exact .pure _
  next here =>
  generalize f.type = ty at isMember
  cases ty with
  | scalar => exact .pure _
  | string => exact (failsOnly_ofWire outOfRange (buf.ranged_readText _)).bind fun _ _ => .pure _
  | vector elem =>
    rcases isMember with ⟨⟨⟨⟩⟩⟩ | isElement | ⟨_, ⟨⟩, _⟩
    exact (alike_readVector outOfRange closed alike stored here sound isElement).map some
  | named id =>
    rcases isMember.known with ⟨e, stands⟩
    have body := body?_of_entry? stands rfl
    have known := entryOf_of_entry? stands
    refine .known known ?_
    cases own : e.body with
    | struct struct =>
      grind [Alike.map, failsOnly_struct]
    | table inner =>
      rw [own] at body
      refine (failsOnly_ofWire outOfRange (buf.ranged_follow _)).bind fun target followed => ?_
      exact (alike inner target (closed.body body)
        (.direct stored here (eq_ok_of_ofWire followed))).map some
    | union union =>
      rw [own] at body
      cases closed.body body with
      | union isTable =>
        exact (alike_readUnion outOfRange closed alike stored here isTable f.typeSlot).map some
    | enum | service => exact .pure _

end

/-- One level of reading: a table whose nested tables a reader is given for. -/
def tableWith (buf : Buffer) (c : Catalog)
    (nested : TableType → ν → Except RecordError Value) (t : TableType)
    (pos : ν) : Except RecordError Value := do
  let live := t.fields.filter fun f => !f.deprecated
  let fs ← live.mapM fun f => do
    let v ← readField buf c nested pos f
    return v.map fun v => (f.name, v)
  return .record (fs.filterMap id)

/-- Readers that are alike on the tables that a table refers to are alike on the table. -/
theorem alike_tableWith (outOfRange : allowed (.wire .outOfRange))
    (closed : c.Closed) (sound : c.Sound) (closedTable : c.ClosedBody (.table t)) {pos : ν}
    (alike : AlikeFrom allowed c buf pos left right) :
    Alike allowed (tableWith buf c left t pos) (tableWith buf c right t pos) := by
  cases closedTable with
  | table isMember _ =>
    refine .bind (.mapM fun f mem => ?_) fun _ _ => .pure _
    have fits := List.mem_of_mem_filter mem
    exact (alike_readField outOfRange closed sound alike (isMember f fits)).bind fun _ _ => .pure _

end Decode

end FlatSchema
