import FlatSchema.Proofs.Reading
import FlatSchema.Proofs.Reshape
import FlatSchema.Proofs.RoundTrip

/-!
# Tables that grow

Two catalogs that differ by fields added to the end of tables, in slots of
their own, understand each other.  What is written under the smaller reads
under the larger as under the smaller, with the fields that were added as they
read where nothing is stored.  And whatever the larger makes of any bytes, the
smaller makes the same of them without those fields.
-/

namespace FlatSchema

open Buffer
open Catalog (TableField TableType ofSymbols)
open Decode (root)
open Encode (builderOf bytesOf)
open SymbolTable (ofSchemas)
open Text (ofString)

variable {c : Catalog}

namespace Decode

/-- Readers of elements that follow each other read vectors that do. -/
theorem narrows_readElements (each : ∀ i, Narrows change (larger i) (smaller i)) (i n : Nat) :
    Narrows (List.map change) (readElements larger i n) (readElements smaller i n) := by
  induction n generalizing i with
  | zero => exact .pure rfl
  | succ n ih =>
    refine (each i).bind fun v => ?_
    exact (ih (i + 1)).bind fun rest => .pure rfl

section

variable
  {buffer : Buffer}
  {c : Catalog}
  {depth : Nat}
  {table : TableType}
  {pos : Int}

theorem readTable_of_each {held : TableField → Option Value}
    (each :
      ∀ f ∈ table.fields.filter fun f => !f.deprecated,
        readField buffer c (readTable buffer c depth) pos f = .ok (held f)) :
    readTable buffer c (depth + 1) table pos =
      .ok (.record ((table.fields.filter fun f => !f.deprecated).filterMap fun f =>
        (held f).map fun v => (f.name, v))) := by
  have steps :
      ∀ f ∈ table.fields.filter fun f => !f.deprecated,
        (do
          let v ← readField buffer c (readTable buffer c depth) pos f
          return v.map fun v => (f.name, v)) = Except.ok ((held f).map fun v => (f.name, v)) := by
    intro f mem
    rw [each f mem]
    rfl
  rw [readTable]
  simp only [mapM_eq_ok steps]
  exact congrArg (fun read => Except.ok (Value.record read)) List.filterMap_map

theorem exists_each_of_readTable (read : readTable buffer c (depth + 1) table pos = .ok v) :
    ∃ held : TableField → Option Value,
      (∀ f ∈ table.fields.filter fun f => !f.deprecated,
        readField buffer c (readTable buffer c depth) pos f = .ok (held f)) ∧
        v =
          .record ((table.fields.filter fun f => !f.deprecated).filterMap fun f =>
            (held f).map fun v => (f.name, v)) := by
  let held : TableField → Option Value := fun f =>
    (readField buffer c (readTable buffer c depth) pos f).toOption.join
  have each :
      ∀ f ∈ table.fields.filter fun f => !f.deprecated,
        readField buffer c (readTable buffer c depth) pos f = .ok (held f) := by
    intro f mem
    have steps := read
    rw [readTable, bind_eq_ok_iff] at steps
    rcases steps with ⟨results, ran, _⟩
    rcases exists_of_mapM_eq_ok ran f mem with ⟨res, step⟩
    rcases bind_eq_ok_iff.mp step with ⟨own, hit, _⟩
    simp [held, hit, Except.toOption]
  exact ⟨held, each, Except.ok.inj (read.symm.trans (readTable_of_each each))⟩

end

end Decode

namespace Catalog

/-- The names of the variants of every union are different. -/
def NamesVariants (c : Catalog) : Prop :=
  ∀ id union, c.body? id = some (.union union) →
    (union.variants.map Variant.name).Nodup

theorem NamesVariants.find?_name (named : c.NamesVariants) {id : Nat}
    (body : c.body? id = some (.union union)) (mem : alt ∈ union.variants) :
    (union.variants.find? fun other => ofString other.name == ofString alt.name) = some alt := by
  rw [← find?_of_nodup (named id union body) mem]
  grind [Text.ofString_inj]

/-- A struct has nothing that a catalog does not know. -/
theorem restrict_struct {id : Nat} (body : c.body? id = some (.struct struct)) (v : Value) :
    c.restrict (.named id) v = v := by
  refine reshape_eq_self (fun fs name => ?_) ?_ v
  · rw [memberType?, body]
  · exact ownFields_of_not_table body fun _ same => by cases same

theorem restrict_union {id : Nat} (body : c.body? id = some (.union union))
    (chosen : (union.variants.find? fun alt => Text.ofString alt.name == name) = some alt)
    (inner : Value) :
    c.restrict (.named id) (.record [("type", .text name), ("value", inner)]) =
      .record [("type", .text name), ("value", c.restrict (.named alt.table) inner)] := by
  simp_all [restrict, reshape_union, ownFields_of_not_table]

namespace Extends

open Decode

variable
  {old new : Catalog}
  (extends_ : old.Extends new)
  (named : old.NamesVariants)
  {buffer : Buffer}
  {larger smaller : TableType → Int → Except RecordError Value}
  (nested :
    ∀ id table grown target,
      old.body? id = some (.table table) → new.body? id = some (.table grown) →
        Narrows (old.restrict (.named id)) (larger grown target) (smaller table target))
include extends_

/-! ## What the smaller catalog reads -/

/-- A table that is looked up has grown out of the one that the smaller catalog finds. -/
theorem narrows_tableOf {id : Nat} {next : Entry × TableType → Except RecordError γ}
    {smallerNext : Entry × TableType → Except RecordError δ}
    (tail :
      ∀ fst snd table grown,
        old.body? id = some (.table table) → new.body? id = some (.table grown) →
          Narrows change (next (snd, grown)) (smallerNext (fst, table))) :
    Narrows change (new.tableOf id >>= next) (old.tableOf id >>= smallerNext) := by
  cases hit : new.tableOf id with
  | error failure => exact .error
  | ok known =>
    rcases known with ⟨e, grown⟩
    have grownBody := tableOf_eq_ok hit
    rcases extends_.exists_table_of_grown grownBody with ⟨table, _, body, _⟩
    rcases tableOf_of_body body with ⟨own, known⟩
    rw [known]
    exact tail own e table grown body grownBody

/-- An entry that is looked up extends the one that the smaller catalog finds. -/
theorem narrows_entryOf {id : Nat}
    {next : Entry → Except RecordError γ} {smallerNext : Entry → Except RecordError δ}
    (tail :
      ∀ fst snd,
        old.body? id = some fst.body → new.body? id = some snd.body →
          Body.Extends fst.body snd.body → Narrows change (next snd) (smallerNext fst)) :
    Narrows change (new.entryOf id >>= next) (old.entryOf id >>= smallerNext) := by
  rcases extends_.entry?_cases id with ⟨_, none⟩ | ⟨fst, snd, hit, stands, extended⟩
  · have failed : new.entryOf id = .error (.unknownEntry (Double.ofInt id)) := by
      simp only [entryOf, none]
    rw [failed]
    exact .error
  · have body := body?_of_entry? hit rfl
    have grownBody := body?_of_entry? stands rfl
    rw [Catalog.entryOf_of_entry? hit, Catalog.entryOf_of_entry? stands]
    exact tail fst snd body grownBody extended

theorem narrows_readStruct {id : Nat} (body : old.body? id = some (.struct struct)) (pos : Int) :
    Narrows (old.restrict (.named id)) (readStruct buffer new new.entries.length struct pos)
      (readStruct buffer old old.entries.length struct pos) := by
  rw [extends_.readStruct_eq, extends_.length_eq]
  exact .same fun v _ => restrict_struct body v

include nested

theorem narrows_readVector (elem : FieldType) (pos : Int) :
    Narrows (old.restrict (.vector elem)) (readVector buffer new larger elem pos)
      (readVector buffer old smaller elem pos) := by
  have items :
      ∀ {many few : Nat → Except RecordError Value} {len : Nat},
        (∀ i, Narrows (old.restrict elem) (many i) (few i)) →
          Narrows (old.restrict (.vector elem))
            (readElements many 0 len >>= fun items => Pure.pure (.list items))
            (readElements few 0 len >>= fun items => Pure.pure (.list items)) := by
    intro many few len each
    refine (narrows_readElements each 0 len).bind fun vs => .pure ?_
    exact (reshape_list elem vs).symm
  rw [readVector, extends_.scalarOf_eq]
  refine .step fun start _ => .step fun len _ => .step fun scalar _ => ?_
  cases scalar with
  | some kind =>
    refine items fun i => .step fun v _ => .pure ?_
    exact (reshape_scalar _ _).symm
  | none =>
    rcases extends_.structOf_cases elem with
      ⟨_, failed, also⟩ | ⟨none, also⟩ | ⟨_, _, struct, isStruct, also⟩
    · rw [also]
      exact .error
    · rw [none, also]
      cases elem with
      | string =>
        refine items fun i => .step fun text _ => .pure ?_
        exact (reshape_text _ _).symm
      | named id =>
        refine items fun i => .step fun target _ => ?_
        grind [narrows_tableOf]
      | scalar _ | vector _ => exact .pure (reshape_list _ []).symm
    · rw [isStruct, also]
      rcases structOf_eq_some isStruct with ⟨id, rfl, body⟩
      exact items fun i => extends_.narrows_readStruct body _

include named

theorem narrows_readUnion {id : Nat} (body : old.body? id = some (.union union))
    (typeSlot : Option Nat) (table pos : Int) :
    Narrows (old.restrict (.named id)) (readUnion buffer new larger union typeSlot table pos)
      (readUnion buffer old smaller union typeSlot table pos) := by
  rw [readUnion_eq, readUnion_eq]
  refine .step fun tag _ => ?_
  rw [readVariant, readVariant]
  cases chosen : union.variants.find? fun alt => alt.tag = tag with
  | none => exact .pure (reshape_null _).symm
  | some alt =>
    refine .step fun target _ => ?_
    refine extends_.narrows_tableOf fun _ _ table grown tableBody grownBody => ?_
    refine (nested alt.table table grown target tableBody grownBody).bind fun v => ?_
    refine .pure ?_
    have hit := named.find?_name body (List.mem_of_find?_eq_some chosen)
    exact (restrict_union body hit v).symm

theorem narrows_readField (table : Int) (f : TableField) :
    Narrows (Option.map (old.restrict f.type)) (readField buffer new larger table f)
      (readField buffer old smaller table f) := by
  rw [readField, extends_.scalarOf_eq]
  refine .step fun off _ => .step fun scalar _ => ?_
  cases scalar with
  | some kind =>
    dsimp only
    split
    · exact .pure (congrArg some (reshape_scalar _ _).symm)
    · refine Narrows.map_some (.step fun v _ => .pure ?_)
      exact (reshape_scalar _ _).symm
  | none =>
    dsimp only
    split
    · exact .pure (congrArg some (reshape_null _).symm)
    · cases f.type with
      | scalar kind => exact .pure rfl
      | string =>
        refine .step fun text _ => .pure ?_
        exact congrArg some (reshape_text _ _).symm
      | vector elem => exact (extends_.narrows_readVector nested elem _).map_some
      | named id =>
        refine extends_.narrows_entryOf fun fst snd body grownBody extended => ?_
        generalize fst.body = own, snd.body = other at body grownBody extended ⊢
        cases extended with
        | same =>
          cases own with
          | struct struct => exact (extends_.narrows_readStruct body _).map_some
          | table inner =>
            grind [Narrows.step, Narrows.map_some]
          | union union =>
            exact (extends_.narrows_readUnion named nested body _ table _).map_some
          | enum _ | service _ => exact .pure rfl
        | @table inner grown _ _ _ =>
          grind [Narrows.step, Narrows.map_some]

omit nested

/-- What the larger catalog reads of a table, the smaller reads without the fields it does not
know. -/
theorem narrows_readTable (sound : new.Sound) (depth : Nat) (id : Nat) (table grown : TableType)
    (pos : Int) (body : old.body? id = some (.table table))
    (grownBody : new.body? id = some (.table grown)) :
    Narrows (old.restrict (.named id)) (readTable buffer new depth grown pos)
      (readTable buffer old depth table pos) := by
  induction depth generalizing id table grown pos with
  | zero => exact .error
  | succ depth ih =>
    have nodup := (sound.tables id grown grownBody).nodup_names
    rcases extends_.exists_table body with ⟨other, extra, hit, fields_eq, _⟩
    cases grownBody.symm.trans hit
    rw [fields_eq] at nodup
    intro v read
    rcases exists_each_of_readTable read with ⟨held, each, rfl⟩
    rw [fields_eq] at each ⊢
    have own :
        ∀ f ∈ table.fields.filter fun f => !f.deprecated,
          readField buffer old (readTable buffer old depth) pos f =
            .ok ((held f).map (old.restrict f.type)) := by
      intro f mem
      rw [List.filter_append] at each
      have hit := each f (List.mem_append_left _ mem)
      exact extends_.narrows_readField named ih pos f _ hit
    rw [readTable_of_each own, restrict_table body nodup]
    simp only [Option.map_map]
    rfl

/-- What the larger catalog reads of a whole buffer, the smaller reads without the fields it does
not know. -/
theorem root_of_root [Extent ι] (sound : new.Sound) {pick : Option ι}
    (read : Decode.root buffer new pick sized = .ok v) :
    ∃ id num,
      old.rootOf pick = .ok id ∧ (Extent.integer? id).bind Int.toNat? = some num ∧
        Decode.root buffer old pick sized = .ok (old.restrict (.named num) v) := by
  rw [Decode.root, extends_.rootOf_eq, bind_eq_ok_iff] at read
  rcases read with ⟨id, chosen, read⟩
  rcases bind_eq_ok_iff.mp read with ⟨pos, begins, read⟩
  rcases bind_eq_ok_iff.mp read with ⟨⟨e, grown⟩, hit, read⟩
  rcases tableAt_eq_ok hit with ⟨num, number_eq, grownBody⟩
  rcases extends_.exists_table_of_grown grownBody with ⟨table, _, body, _⟩
  rcases tableAt_of_body number_eq body with ⟨own, known⟩
  have narrowed :=
    extends_.narrows_readTable named sound _ num table grown pos body grownBody v read
  refine ⟨id, num, chosen, number_eq, ?_⟩
  rw [Decode.root, chosen]
  simp only [begins, Decode.table, known, bind, Except.bind]
  exact narrowed

end Extends

/-! ## What the larger catalog reads -/

/-- A value that the larger catalog reads is what the smaller reads of it, with the fields that were
added as they read where nothing is stored. -/
def Completes (old new : Catalog) (ty : FieldType) (res : Value) : Prop :=
  old.widen new ty (old.restrict ty res) = res

section

variable {old new : Catalog}

theorem completes_scalar (ty : FieldType) (v : ScalarValue) : old.Completes new ty (.scalar v) := by
  rw [Completes, restrict, reshape_scalar, widen, reshape_scalar]

theorem FieldReads.completes
    (holds : old.FieldReads forced (fun ty _ res => old.Completes new ty res) fs f res) :
    old.Completes new f.type res := by
  unfold FieldReads at holds
  split at holds
  · grind [completes_scalar]
  · rw [holds]
    exact completes_scalar _ _
  · exact holds
  · rw [holds, Completes, restrict, reshape_null, widen, reshape_null]

theorem completes_table {id : Nat} (body : old.body? id = some (.table table))
    (grownBody : new.body? id = some (.table grown))
    (fields_eq : grown.fields = table.fields ++ extra)
    (nodup : (grown.fields.map TableField.name).Nodup) (res : TableField → Value)
    (each : ∀ f ∈ table.fields, f.deprecated = false → old.Completes new f.type (res f))
    (others : ∀ f ∈ extra, f.deprecated = false → res f = f.normalAbsent new) :
    old.Completes new (.named id)
      (.record ((grown.fields.filter fun f => !f.deprecated).map fun f => (f.name, res f))) := by
  rw [fields_eq] at nodup ⊢
  have distinct : (table.fields.map TableField.name).Nodup := by
    grind
  have listed :
      ∀ listed : List TableField,
        (listed.map fun f => (f.name, res f)) =
          listed.filterMap fun f => (some (res f)).map fun v => (f.name, v) :=
    fun listed => (congrFun List.filterMap_eq_map' listed).symm
  have narrowed := restrict_table body nodup (fun f => !f.deprecated) fun f => some (res f)
  have widened :=
    widen_table body grownBody fields_eq distinct (fun f => !f.deprecated) fun f =>
      some (old.restrict f.type (res f))
  rw [Completes, listed, narrowed]
  refine widened.trans (congrArg Value.record ?_)
  rw [List.filter_append, List.filterMap_append]
  refine congrArg₂ (· ++ ·) (List.filterMap_congr fun f mem => ?_) ?_
  · rcases List.mem_filter.mp mem with ⟨own, live⟩
    have completed : old.Completes new f.type (res f) := each f own (by simpa using live)
    rw [Option.map_some, Option.map_some, completed]
  simp_all

/-- Under a catalog that extends the one it is written under, a record reads completed. -/
def evolvingPassage (forced : Bool) (sound : old.Sound) (readerSound : new.Sound)
    (extended : old.Extends new) : Passage where
  writer := old
  reader := new
  forced := forced
  Reads ty _ res := old.Completes new ty res
  sound := sound
  readerSound := readerSound
  extended := extended
  text text := by
    rw [Completes, restrict, reshape_text, widen, reshape_text]
  scalar _ given := completes_scalar _ _
  struct body fs := by
    rw [Completes, restrict_struct body]
    refine reshape_eq_self (fun fs name => ?_) ?_ _
    · rw [memberType?, body]
    · exact allFields_of_not_table body fun _ same => by cases same
  list holds := by
    rw [Completes, restrict, reshape_list, widen, reshape_list]
    refine congrArg Value.list ?_
    induction holds with
    | nil => rfl
    | cons hd _ ih => exact congrArg₂ List.cons hd ih
  table res body grownBody fields_eq each others :=
    completes_table body grownBody fields_eq (readerSound.tables _ _ grownBody).nodup_names res
      (fun f mem live => (each f mem live).completes) others
  union {id union pick name inner alt res} body _ _ chosen holds := by
    have completed :
        old.widen new (.named alt.table) (old.restrict (.named alt.table) res) =
          res :=
      holds
    rw [Completes, restrict_union body chosen, widen, reshape_union body chosen,
      allFields_of_not_table body fun _ same => by cases same]
    exact congrArg (fun inner => Value.record [("type", .text name), ("value", inner)]) completed

end

/-- The unions of an accepted catalog name their variants apart. -/
theorem Keeps.namesVariants (keeps : Keeps ctx c) : c.NamesVariants := by
  intro id union hit
  rw [body?, Option.map_eq_some_iff] at hit
  rcases hit with ⟨e, stands, own⟩
  rcases exists_of_forall₂_right keeps.entries stands with ⟨sym, _, body, rfl, kept⟩
  cases own
  generalize sym.decl.body = raw at kept
  cases kept with
  | union _ distinct _ => exact distinct.nodup_names

end Catalog

/-- The only branch of a tree, at first. -/
def branchField : TableField :=
  ⟨"left", .named 0, 0, none, .absent, false, false, false, [], []⟩

/-- What trees got later. -/
def laterFields : List TableField :=
  [⟨"height", .scalar .int16, 1, none, .int 5, false, false, false, [], []⟩,
    ⟨"note", .string, 2, none, .absent, false, false, false, [], []⟩]

/-- A catalog of trees only. -/
def treeCatalog (table : TableType) : Catalog :=
  ⟨[⟨0, "Tree", [], "Tree", [], [], default, .table table⟩], [⟨"", [0]⟩], none, none, none, []⟩

/-- The schemas of the trees, with further fields. -/
def treeSchemas (further : List Field) : List Schema :=
  [ { path := ofString "tree.fbs"
      span := default
      items :=
        [ .declaration ⟨"Tree", [], [], [], .table
            (⟨"left", .named "Tree" default, none, [], [], default⟩ :: further), default⟩ ] } ]

/-- A tree of two branches, with a height and no note at every node. -/
def tallTree : Value :=
  .record
    [("left", .record
        [("left", .record
            [("left", .null), ("height", .scalar (.number (Double.ofInt 5))), ("note", .null)]),
          ("height", .scalar (.number (Double.ofInt 5))), ("note", .null)]),
      ("height", .scalar (.number (Double.ofInt 5))), ("note", .null)]

end FlatSchema
