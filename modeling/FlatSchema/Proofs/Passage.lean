import FlatSchema.Proofs.Extension

/-!
# From writers to readers

A record is written under one catalog and read under another that extends it;
scalars that equal their default are left out, or stored where that is forced.
A passage relates each value of a type to what it may then be read as.  All
that is asked of the relation is that it goes along with the ways in which
values are put together, so one account of writing and reading serves every
such relation.
-/

namespace FlatSchema

open Catalog ScalarKind ScalarValue Utf8 Value

/-- Every scalar counts as the same default as itself. -/
theorem ScalarValue.same_self (v : ScalarValue) : v.same v = true := by
  cases v with
  | number num =>
    simp only [same, Double.sameValue]
    cases num.isNaN <;> simp
  | wide num => simp [same]
  | flag truth => simp [same]

/-- What a scalar field of a table reads as: its default, if it is left out, and else what its
kind stores. -/
def ScalarKind.slotForm (kind : ScalarKind) (forced : Bool) (fallback actual : ScalarValue) :
    ScalarValue :=
  if !forced && actual.same fallback then fallback else kind.convert actual

/-- What the field of a table that holds a record may read as, given what values of other types
may. -/
def Catalog.FieldReads (c : Catalog) (forced : Bool)
    (reads : FieldType → Value → Value → Prop) (fs : Fields) (f : TableField)
    (res : Value) : Prop :=
  match c.scalar? f.type, fs.present? f.name with
  | some kind, some v =>
    ∃ given,
      v = .scalar given ∧
        res =
          .scalar (kind.slotForm forced (f.default.toScalar kind) (kind.coerce given))
  | some kind, none =>
    res =
      .scalar
        (kind.slotForm forced (f.default.toScalar kind) (f.default.toScalar kind))
  | none, some v => reads f.type v res
  | none, none => res = .null

/-- What values that are written under one catalog may be read as under another. -/
structure Passage where
  writer : Catalog
  reader : Catalog
  /-- Whether scalars that equal their default are stored. -/
  forced : Bool
  Reads : FieldType → Value → Value → Prop
  sound : writer.Sound
  readerSound : reader.Sound
  extended : writer.Extends reader
  text : ∀ text, Reads .string (.text text) (.text (decode (encode text)))
  scalar :
    ∀ {ty kind}, writer.scalar? ty = some kind →
      ∀ given, Reads ty (.scalar given) (.scalar (kind.convert (kind.coerce given)))
  struct :
    ∀ {id struct}, writer.body? id = some (.struct struct) →
      ∀ fs, Reads (.named id) (.record fs) (writer.normalForm (.named id) (.record fs))
  list :
    ∀ {elem items results}, List.Forall₂ (Reads elem) items results →
      Reads (.vector elem) (.list items) (.list results)
  table :
    ∀ {id old new extra fs} (res : TableField → Value),
      writer.body? id = some (.table old) → reader.body? id = some (.table new) →
      new.fields = old.fields ++ extra →
      (∀ f ∈ old.fields, f.deprecated = false → writer.FieldReads forced Reads fs f (res f)) →
      (∀ f ∈ extra, f.deprecated = false → res f = f.normalAbsent reader) →
      Reads (.named id) (.record fs)
        (.record ((new.fields.filter fun f => !f.deprecated).map fun f => (f.name, res f)))
  union :
    ∀ {id union pick name inner alt res}, writer.body? id = some (.union union) →
      pick.lookup "type" = some (.text name) → pick.lookup "value" = some inner →
      (union.variants.find? fun alt => Text.ofString alt.name == name) = some alt →
      Reads (.named alt.table) inner res →
      Reads (.named id) (.record pick) (.record [("type", .text name), ("value", res)])

/-- What the field of a table that holds a record may read as. -/
def Passage.FieldHolds (p : Passage) (fs : Fields) (f : TableField) (res : Value) : Prop :=
  p.writer.FieldReads p.forced p.Reads fs f res

namespace Catalog

variable {c : Catalog} {fs : Fields} {f : TableField} {res : Value}

theorem FieldReads.eq_normalTableField
    (holds : c.FieldReads false (fun ty v res => res = c.normalForm ty v) fs f res) :
    res = c.normalTableField fs f := by
  unfold FieldReads at holds
  unfold normalTableField TableField.normalAbsent
  cases stored : c.scalar? f.type with
  | some kind =>
    cases here : fs.present? f.name with
    | some v =>
      simp only [stored, here] at holds ⊢
      rcases holds with ⟨given, rfl, rfl⟩
      rw [normalOr, slotForm, Bool.not_false, Bool.true_and]
      split <;> rfl
    | none =>
      grind [slotForm, same_self]
  | none =>
    grind

/-- Under one catalog a record reads as its normal form. -/
def normalPassage (sound : c.Sound) : Passage where
  writer := c
  reader := c
  forced := false
  Reads ty v res := res = c.normalForm ty v
  sound := sound
  readerSound := sound
  extended := .refl c
  text text := (normalForm_text text).symm
  scalar stored given := by
    rw [normalForm_scalar stored]
    rfl
  struct _ _ := rfl
  list holds := by
    rw [normalForm_list]
    refine congrArg list ?_
    induction holds with
    | nil => rfl
    | cons hd _ ih => rw [List.map_cons, hd, ih]
  table := by
    rintro id old new extra fs res body also fields_eq each _
    cases body.symm.trans also
    rw [normalForm_table body]
    refine congrArg record (List.map_congr_left fun f mem => ?_)
    rcases List.mem_filter.mp mem with ⟨own, live⟩
    rw [(each f own (by simpa using live)).eq_normalTableField]
  union body named held chosen holds := by
    rw [normalForm_union body named held chosen, holds]

/-- Under one catalog, with nothing said of what a record reads as. -/
def plainPassage (sound : c.Sound) (forced : Bool) : Passage where
  writer := c
  reader := c
  forced := forced
  Reads _ _ _ := True
  sound := sound
  readerSound := sound
  extended := .refl c
  text _ := trivial
  scalar _ _ := trivial
  struct _ _ := trivial
  list _ := trivial
  table _ _ _ _ _ _ := trivial
  union _ _ _ _ _ := trivial

end Catalog

end FlatSchema
