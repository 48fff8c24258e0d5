import FlatSchema.Proofs.StructRoundTrip

/-!
# Catalogs that extend others

A catalog extends another if it has the same entries, except that tables may
have more fields, after those of the other and in slots beyond its slots.
Structs, enumerations and unions are the same, so types are looked up alike
and structs read alike.
-/

namespace FlatSchema

namespace Catalog

/-- A body is the same as another, or a table with more fields in slots of their own. -/
inductive Body.Extends : Body → Body → Prop where
  | same (body : Body) : Extends body body
  | table {old new : TableType} (extra : List TableField)
      (fields_eq : new.fields = old.fields ++ extra)
      (beyond : ∀ slot ∈ extra.flatMap TableField.slots, old.slotCount ≤ slot) :
      Extends (.table old) (.table new)

/-- A catalog has the entries and the root type of another, and its tables may have more fields. -/
structure Extends (old new : Catalog) : Prop where
  entries :
    List.Forall₂ (fun old new : Entry => Body.Extends old.body new.body) old.entries new.entries
  rootType_eq : new.rootType = old.rootType

theorem Extends.refl (c : Catalog) : c.Extends c where
  entries := List.forall₂_same.mpr fun e _ => .same e.body
  rootType_eq := rfl

/-- What a table has beyond the fields of another. -/
theorem Body.Extends.of_table (grown : Body.Extends (.table old) body) :
    ∃ new extra,
      body = .table new ∧ new.fields = old.fields ++ extra ∧
        ∀ slot ∈ extra.flatMap TableField.slots, old.slotCount ≤ slot := by
  cases grown with
  | same => exact ⟨old, [], rfl, (List.append_nil _).symm, by simp⟩
  | @table _ new extra fields_eq beyond => exact ⟨new, extra, rfl, fields_eq, beyond⟩

variable {old new : Catalog} (extends_ : old.Extends new)
include extends_

namespace Extends

theorem length_eq : new.entries.length = old.entries.length :=
  extends_.entries.length_eq.symm

/-- Entries correspond by their numbers. -/
theorem entry?_cases (id : Nat) :
    old.entry? id = none ∧ new.entry? id = none ∨
      ∃ fst snd,
        old.entry? id = some fst ∧ new.entry? id = some snd ∧ Body.Extends fst.body snd.body := by
  cases hit : old.entry? id with
  | none =>
    grind [length_eq, entry?]
  | some fst =>
    rcases exists_of_forall₂_left extends_.entries hit with ⟨snd, stands, grown⟩
    exact .inr ⟨fst, snd, rfl, stands, grown⟩

theorem exists_body {id : Nat} (hit : old.body? id = some body) :
    ∃ grown, new.body? id = some grown ∧ Body.Extends body grown := by
  rw [body?, Option.map_eq_some_iff] at hit
  rcases hit with ⟨e, stands, rfl⟩
  rcases exists_of_forall₂_left extends_.entries stands with ⟨snd, hit, grown⟩
  grind [body?, entry?]

theorem body_eq {id : Nat} (hit : old.body? id = some body) (notTable : ∀ t, body ≠ .table t) :
    new.body? id = some body := by
  grind [exists_body, Body.Extends]

theorem exists_table {id : Nat} (hit : old.body? id = some (.table t)) :
    ∃ grown extra,
      new.body? id = some (.table grown) ∧ grown.fields = t.fields ++ extra ∧
        ∀ slot ∈ extra.flatMap TableField.slots, t.slotCount ≤ slot := by
  grind [exists_body, Body.Extends.of_table]

/-- Every table of the larger catalog has grown out of one of the smaller. -/
theorem exists_table_of_grown {id : Nat} (hit : new.body? id = some (.table grown)) :
    ∃ t extra,
      old.body? id = some (.table t) ∧ grown.fields = t.fields ++ extra ∧
        ∀ slot ∈ extra.flatMap TableField.slots, t.slotCount ≤ slot := by
  rw [body?, Option.map_eq_some_iff] at hit
  rcases hit with ⟨snd, stands, own⟩
  rcases exists_of_forall₂_right extends_.entries stands with ⟨fst, known, extended⟩
  rw [own] at extended
  generalize body_eq : fst.body = body at extended
  have hit : old.body? id = some body := by
    rw [body?, entry?, known, ← body_eq]
    rfl
  cases extended with
  | same => exact ⟨grown, [], hit, (List.append_nil _).symm, by simp⟩
  | @table t _ extra fields_eq beyond => exact ⟨t, extra, hit, fields_eq, beyond⟩

/-- The same table is the root. -/
theorem rootOf_eq [Extent ι] (pick : Option ι) : new.rootOf pick = old.rootOf pick := by
  unfold rootOf
  rw [extends_.rootType_eq]

/-! ## Types are looked up alike -/

theorem scalarOf_eq (ty : FieldType) : new.scalarOf ty = old.scalarOf ty := by
  cases ty with
  | named id =>
    rcases extends_.entry?_cases id with ⟨none, also⟩ | ⟨fst, snd, hit, stands, grown⟩
    · simp only [scalarOf, entryOf, none, also]
    · rw [scalarOf_named hit, scalarOf_named stands]
      generalize fst.body = own, snd.body = other at grown ⊢
      cases grown with
      | same => rfl
      | table => rfl
  | _ => rfl

/-- A type is the same struct, whatever its entry is called. -/
theorem structOf_cases (ty : FieldType) :
    (∃ err, old.structOf ty = .error err ∧ new.structOf ty = .error err) ∨
      old.structOf ty = .ok none ∧ new.structOf ty = .ok none ∨
      ∃ fst snd struct,
        old.structOf ty = .ok (some (fst, struct)) ∧
          new.structOf ty = .ok (some (snd, struct)) := by
  cases ty with
  | named id =>
    rcases extends_.entry?_cases id with ⟨none, also⟩ | ⟨fst, snd, hit, stands, grown⟩
    · refine .inl ⟨.unknownEntry (Double.ofInt id), ?_, ?_⟩
      · simp only [structOf, entryOf, none, bind, Except.bind]
      · simp only [structOf, entryOf, also, bind, Except.bind]
    · rw [structOf_named hit, structOf_named stands]
      generalize fst.body = own, snd.body = other at grown ⊢
      cases grown with
      | same =>
        grind
      | table => exact .inr (.inl ⟨rfl, rfl⟩)
  | _ => exact .inr (.inl ⟨rfl, rfl⟩)

theorem structOf_some (hit : old.structOf ty = .ok (some (e, struct))) :
    ∃ other, new.structOf ty = .ok (some (other, struct)) := by
  grind [structOf_cases]

theorem structOf_none (hit : old.structOf ty = .ok none) : new.structOf ty = .ok none := by
  grind [structOf_cases]

/-! ## Structs read alike -/

theorem readStruct_eq (buf : Buffer) (depth : Nat) (struct : StructType) (pos : Int) :
    Decode.readStruct buf new depth struct pos = Decode.readStruct buf old depth struct pos := by
  induction depth generalizing struct pos with
  | zero => rfl
  | succ depth ih =>
    rw [readStruct_succ, readStruct_succ]
    have each :
        ∀ (f : StructField) (place : Int),
          readStructField buf new depth f place = readStructField buf old depth f place := by
      intro f place
      rw [readStructField, readStructField, extends_.scalarOf_eq]
      rcases extends_.structOf_cases f.type with
        ⟨_, failed, also⟩ | ⟨none, also⟩ | ⟨_, _, nested, isStruct, also⟩
      · rw [failed, also]
        rfl
      · rw [none, also]
        rfl
      · simp only [isStruct, also, bind, Except.bind, ih nested place]
    simp only [each]

end Extends

end Catalog

end FlatSchema
