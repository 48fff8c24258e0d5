import FlatSchema.Proofs.CanonicalNames
import FlatSchema.Proofs.TableRoundTrip

/-!
# The slots of a table

The fields of an accepted table share its slots without gap or overlap: each
number below the count of slots is the slot of one field or the slot of the tag
of one union field.  So the order of writing names each slot of each field that
is not deprecated once.
-/

namespace FlatSchema.Catalog

open Check SymbolTable TableField

/-- Exactly the slots of the fields that are not deprecated are written. -/
theorem perm_slots_writeOrder (catalog : Catalog) (t : TableType) :
    ((t.writeOrder catalog).map SlotWrite.slot).Perm
      ((t.fields.filter fun f => !f.deprecated).flatMap slots) := by
  have sorted := (List.mergeSort_perm (t.fields.flatMap (writes catalog))
    fun left right => right.width ≤ left.width).map SlotWrite.slot
  apply sorted.trans
  induction t.fields with
  | nil => exact .nil
  | cons hd rest ih =>
    grind [writes, slots]

section

variable {ctx : Context} {catalog : Catalog} (keeps : Keeps ctx catalog)

include keeps

theorem Keeps.isNamed_union_iff :
    ctx.isNamed .union ty = true ↔
      ∃ id union, ty = .named id ∧ catalog.body? id = some (.union union) := by
  constructor
  · intro isUnion
    cases ty with
    | named id =>
      rcases kind?_eq_some_iff.mp (of_decide_eq_true isUnion) with
        ⟨sym, stands, kind⟩
      rcases keeps.body_of_symbol stands with ⟨body, hit, kept⟩
      have same : body.kind = .union := kept.kind_eq.trans kind
      cases body with
      | union union => exact ⟨id, union, rfl, hit⟩
      | enum | struct | table | service => cases same
    | scalar | string | vector => cases isUnion
  · rintro ⟨id, union, rfl, hit⟩
    exact decide_eq_true (keeps.kind_of_body hit)

theorem Keeps.typeSlot_iff (kept : KeepsField ctx enums ns raw f) {slot : Nat} :
    f.typeSlot = some slot ↔
      slot + 1 = f.slot ∧
        ∃ id union, f.type = .named id ∧ catalog.body? id = some (.union union) := by
  rw [kept.typeSlot_eq, ← keeps.isNamed_union_iff]
  split
  · next isUnion =>
      have pos := kept.slot_pos isUnion
      grind
  · next plain => simp [plain]

end

/-- The fields of an accepted table share its slots.

The slots of the fields, with those of the tags, are the numbers below the count, each once; a
union field, and no other, has a tag, just before its value.  If a field is written with an id, the
slot of each is its id; if none is, the slots follow declaration order.  The order of writing lists
each slot of each field that is not deprecated once. -/
theorem slots_shared {schemas : List Schema} {entry : Option Text} {earlier : List Diagnostic}
    {catalog : Catalog}
    (accepted :
      (ofSymbols schemas (ofSchemas schemas).value entry earlier).value = .accepted catalog)
    {id : Nat} {table : TableType} (found : catalog.body? id = some (.table table)) :
    (table.fields.flatMap slots).Perm (List.range table.slotCount) ∧
      (∀ field ∈ table.fields, ∀ slot,
        field.typeSlot = some slot ↔
          slot + 1 = field.slot ∧
            ∃ inner union, field.type = .named inner ∧ catalog.body? inner = some (.union union)) ∧
      (∃ symbol written,
        (ofSchemas schemas).value.entries[id]? = some symbol ∧ symbol.decl.body = .table written ∧
          table.fields.map name = written.map Field.name ∧ SharesSlots written table) ∧
      ((table.writeOrder catalog).map SlotWrite.slot).Perm
          ((table.fields.filter fun field => !field.deprecated).flatMap slots) ∧
        ((table.writeOrder catalog).map SlotWrite.slot).Nodup := by
  have keeps := keeps_of_accepted accepted
  rcases keeps.symbol_of_body found with ⟨symbol, stands, kept⟩
  generalize body : symbol.decl.body = whole at kept
  cases kept with
  | @table written _ kept =>
    refine ⟨kept.shares.perm, ?_, ?_, perm_slots_writeOrder catalog table,
      (keeps.soundTable found).nodup_writeOrder⟩
    · intro field member slot
      rcases List.getElem?_of_mem member with ⟨index, place⟩
      rcases exists_of_forall₂_right kept.kept place with ⟨_, _, keepsField⟩
      exact keeps.typeSlot_iff keepsField
    · refine ⟨symbol, written, stands, body, ?_, kept.shares⟩
      exact map_eq_of_forall₂ kept.kept fun _ _ keepsField => keepsField.name_eq

/-- A union and two tables with fields of it, one of which numbers its fields. -/
def slottedSource : Source :=
  ⟨"slots.fbs", "table A\x7ba:int;u:U;b:int(deprecated);\x7dunion U\x7bA\x7d" ++
    "table B\x7bu:U(id:2);a:int(id:0);\x7d"⟩

def slottedTables? (catalog : Catalog) : Option (TableType × TableType) :=
  match catalog.body? 0, catalog.body? 2 with
  | some (.table implicit), some (.table explicit) => some (implicit, explicit)
  | _, _ => none

/-- The slots of both tables, and the order in which they are written. -/
theorem slots_shared_slotted :
    ∃ schema catalog implicit explicit,
      slottedSource.accepted? = some (schema, catalog) ∧
        catalog.body? 0 = some (.table implicit) ∧ catalog.body? 2 = some (.table explicit) ∧
        implicit.fields.flatMap slots = [0, 1, 2, 3] ∧ explicit.fields.flatMap slots = [1, 2, 0] ∧
        (implicit.fields.flatMap slots).Perm (List.range implicit.slotCount) ∧
        (explicit.fields.flatMap slots).Perm (List.range explicit.slotCount) ∧
        ((implicit.writeOrder catalog).map SlotWrite.slot).Perm [0, 1, 2] := by
  have evaluated :
      (slottedSource.accepted?.bind fun pair =>
        (slottedTables? pair.2).map fun tables =>
          (tables.1.fields.flatMap slots, tables.2.fields.flatMap slots,
            (tables.1.fields.filter fun field => !field.deprecated).flatMap slots)) =
        some ([0, 1, 2, 3], [1, 2, 0], [0, 1, 2]) := by
    decide +kernel
  rcases Option.bind_eq_some_iff.mp evaluated with ⟨⟨schema, catalog⟩, found, values⟩
  rcases Option.map_eq_some_iff.mp values with ⟨⟨implicit, explicit⟩, tables, values⟩
  simp only [Prod.mk.injEq] at values
  unfold slottedTables? at tables
  split at tables
  · next first second =>
      cases tables
      rcases Source.of_accepted? found with ⟨_, accepted⟩
      rcases slots_shared accepted first with ⟨all, _, _, written, _⟩
      rw [values.2.2] at written
      exact ⟨schema, catalog, implicit, explicit, found, first, second, values.1, values.2.1, all,
        (slots_shared accepted second).1, written⟩
  · cases tables

end FlatSchema.Catalog
