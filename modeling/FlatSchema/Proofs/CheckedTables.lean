import FlatSchema.Proofs.CheckedMembers
import Mathlib.Data.List.Perm.Subperm

/-!
# Checked tables

A table that is checked without an error has one field for each written one,
in order.  The slots of its fields, those of union tags included, are the
numbers below the number of slots, each once.  They are the written ids, or
follow one another where there are none.
-/

namespace FlatSchema

variable {ctx : Context} {enums : EnumTypes} {t : String} {s : TableState}

/-- The slots of a field, the slot of the tag first. -/
def Catalog.TableField.slots (fld : Catalog.TableField) : List Nat :=
  fld.typeSlot.toList ++ [fld.slot]

namespace Check

/-- Fields without a report of a repeated name have names of their own. -/
theorem nodup_of_repeatedFields
    (clean : DiagnosticAt.hasErrors (repeatedFields owner seen fs) = false) :
    (fs.map Field.name).Nodup ∧ ∀ fld ∈ fs, fld.name ∉ seen := by
  induction fs generalizing seen with
  | nil => exact ⟨List.nodup_nil, fun _ mem => nomatch mem⟩
  | cons hd rest ih =>
    simp only [repeatedFields] at clean
    split at clean
    · simp at clean
    · next fresh =>
        constructor
        · grind
        · grind

/-! ## Fields -/

/-- The field that was kept for a written one. -/
structure KeepsField (ctx : Context) (enums : EnumTypes) (ns : List String) (raw : Field)
    (kept : Catalog.TableField) : Prop where
  eq_slotted : kept = slottedField raw kept.type ⟨kept.typeSlot, kept.slot⟩ kept.default
  denotes : Denotes ctx.symbols ns raw.type kept.type
  notService : ¬ ctx.isNamed .service kept.type = true
  default_eq :
    defaultOf? ctx enums kept.type (raw.default.map Literal.value) = some (.ok kept.default)
  typeSlot_eq :
    kept.typeSlot =
      if ctx.isNamed .union kept.type then some (kept.slot - 1) else none
  slot_pos : ctx.isNamed .union kept.type = true → 0 < kept.slot
  optional :
    kept.required = true → (∀ kind, kept.type ≠ .scalar kind) ∧ ctx.isNamed .enum kept.type = false

namespace KeepsField

variable {ctx : Context} {enums : EnumTypes} {ns : List String} {raw : Field}
  {kept : Catalog.TableField}

variable (keeps : KeepsField ctx enums ns raw kept)
include keeps

theorem name_eq : kept.name = raw.name := by
  rw [keeps.eq_slotted]
  rfl

theorem doc_eq : kept.doc = raw.doc := by
  rw [keeps.eq_slotted]
  rfl

theorem attributes_eq : kept.attributes = raw.attributes.map Attribute.toCatalog := by
  rw [keeps.eq_slotted]
  rfl

end KeepsField

/-- Every enumeration of the symbols has been accepted. -/
def AllAccepted (ctx : Context) (enums : EnumTypes) : Prop :=
  ∀ id, ctx.symbols.kind? id = some .enum → ∃ enum, enums.lookup id = some enum

/-- A default that is checked without an error fits its type. -/
theorem fieldDefault_of_clean (accepted : AllAccepted ctx enums)
    (clean : (fieldDefault ctx enums t fld ty).Clean) :
    ∃ fallback,
      (fieldDefault ctx enums t fld ty).value = some fallback ∧
        defaultOf? ctx enums ty (fld.default.map Literal.value) = some (.ok fallback) := by
  unfold fieldDefault at clean ⊢
  cases decided : defaultOf? ctx enums ty (fld.default.map Literal.value) with
  | none =>
    -- Only an enumeration that was not accepted leaves the default open.
    unfold defaultOf? at decided
    split at decided
    · cases decided
    · split at decided
      · cases decided
      · next unknown =>
          split at decided
          · next isEnum =>
              rcases accepted _ isEnum with ⟨enum, known⟩
              grind
          · cases decided
    · cases decided
  | some out =>
    cases out with
    | ok fallback => exact ⟨fallback, rfl, rfl⟩
    | error fault => simp [decided] at clean

/-- Slots that are claimed without an error were free. -/
theorem claimSlots_of_clean (clean : (Report.through (claimSlot t fld span) owners slots).Clean)
    (nodup : (owners.map Prod.fst).Nodup) :
    ((Report.through (claimSlot t fld span) owners slots).value.map Prod.fst =
        owners.map Prod.fst ++ slots) ∧ (owners.map Prod.fst ++ slots).Nodup := by
  have kept :=
    Report.through_induction
      (motive := fun passed s =>
        s.map Prod.fst = owners.map Prod.fst ++ passed ∧ (owners.map Prod.fst ++ passed).Nodup)
      ⟨by simp, by simpa using nodup⟩
      (by
        intro passed slot s _ holds stepClean
        unfold claimSlot at stepClean ⊢
        split at stepClean
        · simp at stepClean
        · next free =>
            have fresh : slot ∉ owners.map Prod.fst ++ passed := by
              grind
            rw [← List.append_assoc]
            refine ⟨?_, nodup_concat holds.2 fresh⟩
            simp [holds.1])
      clean
  exact kept

/-- The id of a field gives its slot. -/
def HasSlot (fld : Field) (slot : Nat) : Prop :=
  ∃ raw, Attribute.find? fld.attributes "id" = some raw ∧
    idValue? raw.value = some slot

/-- Slots that are chosen without an error have room for the tag of a union; they are given by the
id of the field or are the next ones. -/
theorem slotsOf_of_clean (numbered : explicit = true → Attribute.has fld.attributes "id" = true)
    (clean : (slotsOf t explicit s fld isUnion).Clean) :
    ∃ slots,
      (slotsOf t explicit s fld isUnion).value = some slots ∧
        slots.typeSlot = (if isUnion then some (slots.slot - 1) else none) ∧
        (isUnion = true → 0 < slots.slot) ∧ (explicit = true → HasSlot fld slots.slot) ∧
        (explicit = false → slots = FieldSlots.next s.nextSlot isUnion) := by
  unfold slotsOf at clean ⊢
  split at clean
  · next isExplicit =>
      have has := numbered isExplicit
      unfold Attribute.has at has
      split at clean
      · grind
      · next raw hit =>
          unfold explicitSlots at clean ⊢
          split at clean
          · simp at clean
          · next slot given =>
              have own : HasSlot fld slot := ⟨raw, hit, given⟩
              split at clean
              · next union =>
                  split at clean
                  · simp at clean
                  simp_all [if_neg, Nat.pos_of_ne_zero]
              simp_all
  · next implicit =>
      rw [if_neg implicit]
      refine ⟨_, rfl, ?_, ?_, fun isExplicit => absurd isExplicit implicit, fun _ => rfl⟩
      · cases isUnion <;> simp [FieldSlots.next]
      · intro union
        simp [FieldSlots.next, union]

/-! ## Tables -/

/-- What is kept while the fields of a table are checked. -/
structure TableInvariant (ctx : Context) (enums : EnumTypes) (ns : List String) (explicit : Bool)
    (passed : List Field) (s : TableState) : Prop where
  kept : List.Forall₂ (KeepsField ctx enums ns) passed s.fields
  owners_eq : s.owners.map Prod.fst = s.fields.flatMap Catalog.TableField.slots
  nodup_owners : (s.owners.map Prod.fst).Nodup
  numbered : explicit = true → List.Forall₂ (fun fld kept => HasSlot fld kept.slot) passed s.fields
  following : explicit = false → s.owners.map Prod.fst = List.range s.nextSlot

theorem tableInvariant_start (ctx : Context) (enums : EnumTypes) (ns : List String)
    (explicit : Bool) : TableInvariant ctx enums ns explicit [] TableState.start :=
  ⟨.nil, rfl, List.nodup_nil, fun _ => .nil, fun _ => rfl⟩

/-- No scalar is required. -/
theorem requiredScalar_of_clean (clean : (requiredScalar ctx t fld ty).Clean)
    (required : Attribute.has fld.attributes "required" = true) :
    (∀ kind, ty ≠ .scalar kind) ∧ ctx.isNamed .enum ty = false := by
  unfold requiredScalar at clean
  rcases Option.isSome_iff_exists.mp required with ⟨attr, given⟩
  rw [given] at clean
  cases ty with
  | scalar kind => simp at clean
  | _ =>
    refine ⟨fun _ => (by simp), Bool.eq_false_iff.mpr fun named => ?_⟩
    simp [named] at clean

/-- A field that is accepted without an error is added with its slots. -/
theorem acceptField_of_clean (accepted : AllAccepted ctx enums)
    (clean : (acceptField ctx enums t s fld ty slots).Clean) :
    ∃ fallback,
      (acceptField ctx enums t s fld ty slots).value.fields =
          s.fields ++ [slottedField fld ty slots fallback] ∧
        (acceptField ctx enums t s fld ty slots).value.owners = s.owners ∧
        (acceptField ctx enums t s fld ty slots).value.nextSlot = s.nextSlot ∧
        defaultOf? ctx enums ty (fld.default.map Literal.value) = some (.ok fallback) ∧
        (requiredScalar ctx t fld ty).Clean := by
  unfold acceptField at clean ⊢
  simp only [Report.clean_bind, Report.value_bind] at clean ⊢
  rcases fieldDefault_of_clean accepted clean.1 with ⟨fallback, v, fits⟩
  simp_all

theorem range_append_next (slot : Nat) (isUnion : Bool) :
    List.range slot ++ (FieldSlots.next slot isUnion).toList =
      List.range ((FieldSlots.next slot isUnion).slot + 1) := by
  cases isUnion <;> simp [FieldSlots.next, FieldSlots.toList, List.range_succ]

theorem tableField_of_clean (accepted : AllAccepted ctx enums)
    (numbered : explicit = true → Attribute.has fld.attributes "id" = true)
    (holds : TableInvariant ctx enums sym.decl.scope explicit passed s)
    (clean : (tableField ctx enums sym explicit s fld).Clean) :
    TableInvariant ctx enums sym.decl.scope explicit (passed ++ [fld])
      (tableField ctx enums sym explicit s fld).value := by
  unfold tableField at clean ⊢
  simp only [Report.clean_bind, Report.value_bind] at clean ⊢
  rcases Context.denotes_of_clean clean.2.1 with ⟨ty, v, means⟩
  rw [v] at clean ⊢
  replace clean := clean.2.2
  split at clean
  · simp at clean
  · next notService =>
      rw [if_neg notService]
      simp only [Report.clean_bind, Report.value_bind] at clean ⊢
      rcases slotsOf_of_clean numbered clean.1 with
        ⟨slots, chosen, typeSlot, pos, given, next⟩
      rw [chosen] at clean ⊢
      simp only [Report.clean_bind, Report.value_bind] at clean ⊢
      rcases claimSlots_of_clean clean.2.1 holds.nodup_owners with ⟨owners, nodup⟩
      rcases acceptField_of_clean accepted clean.2.2 with
        ⟨fallback, fieldsEqual, ownersEqual, nextEqual, fits, optional⟩
      refine ⟨?_, ?_, ?_, ?_, ?_⟩
      · rw [fieldsEqual]
        exact List.rel_append holds.kept (.cons
          ⟨rfl, means, notService, fits, typeSlot, pos, requiredScalar_of_clean optional⟩ .nil)
      · rw [fieldsEqual, ownersEqual, owners, holds.owners_eq, List.flatMap_append,
          List.flatMap_singleton]
        rfl
      · rw [ownersEqual, owners]
        exact nodup
      · intro isExplicit
        rw [fieldsEqual]
        exact List.rel_append (holds.numbered isExplicit) (.cons (given isExplicit) .nil)
      grind [TableInvariant.following, range_append_next]

/-- The count of slots is the least bound of those in use. -/
theorem slotCountOf_le_iff :
    slotCountOf owners ≤ bound ↔ ∀ slot ∈ owners.map Prod.fst, slot < bound := by
  suffices general :
      ∀ (owners : List (Nat × String)) (n : Nat),
        owners.foldl (fun n owner => max n (owner.1 + 1)) n ≤ bound ↔
          n ≤ bound ∧ ∀ slot ∈ owners.map Prod.fst, slot < bound by
    simpa [slotCountOf] using general owners 0
  intro owners
  induction owners with
  | nil => simp
  | cons hd rest ih =>
    intro n
    rw [List.foldl_cons, ih, Nat.max_le, List.map_cons, List.forall_mem_cons, and_assoc,
      Nat.succ_le_iff]

/-- Slots in use that are distinct and as many as their count are all that lie below it. -/
theorem perm_range_slotCountOf
    (nodup : (owners.map Prod.fst).Nodup) (full : owners.length = slotCountOf owners) :
    (owners.map Prod.fst).Perm (List.range (slotCountOf owners)) := by
  have within : owners.map Prod.fst ⊆ List.range (slotCountOf owners) := by
    intro slot mem
    exact List.mem_range.mpr (slotCountOf_le_iff.mp (Nat.le_refl _) slot mem)
  apply (nodup.subperm within).perm_of_length_le
  grind

theorem length_of_gappedSlots (clean : (gappedSlots sym owners).Clean) :
    owners.length = slotCountOf owners := by
  by_contra gapped
  simp [gappedSlots, gapped] at clean

theorem length_eq_slotCountOf
    (tail : owners.map Prod.fst = List.range n) : owners.length = slotCountOf owners := by
  have len : owners.length = n := by simpa using congrArg List.length tail
  have below : slotCountOf owners ≤ n := by simp [slotCountOf_le_iff, tail]
  have least : ∀ slot ∈ owners.map Prod.fst, slot < slotCountOf owners :=
    slotCountOf_le_iff.mp (Nat.le_refl _)
  rcases Nat.lt_or_ge (slotCountOf owners) n with short | enough
  · rw [tail] at least
    exact absurd (least _ (List.mem_range.mpr short)) (Nat.lt_irrefl _)
  · omega

/-- Members without a report of a clash are of one field where they are the same. -/
theorem apart_of_memberClashes
    (clean : DiagnosticAt.hasErrors (memberClashes sym declared owners pairs) = false) :
    (pairs.Pairwise fun fst snd => fst.1 = snd.1 → fst.2 = snd.2) ∧
      ∀ pair ∈ pairs, ∀ owner ∈ owners.lookup pair.1, owner = pair.2 := by
  induction pairs generalizing owners with
  | nil => exact ⟨.nil, fun _ mem => nomatch mem⟩
  | cons hd rest ih =>
    rw [memberClashes] at clean
    split at clean
    · next free =>
        rcases ih clean with ⟨apart, owned⟩
        refine ⟨List.pairwise_cons.mpr ⟨?_, apart⟩, List.forall_mem_cons.mpr ⟨?_, ?_⟩⟩
        · intro other mem same
          refine owned other mem _ ?_
          grind
        · simp [free]
        · intro other mem owner known
          refine owned other mem owner ?_
          grind
    · next owner known =>
        split at clean
        · next same =>
            rcases ih clean with ⟨apart, owned⟩
            refine ⟨List.pairwise_cons.mpr ⟨?_, apart⟩, List.forall_mem_cons.mpr ⟨?_, owned⟩⟩
            · intro other mem equal
              exact same ▸ owned other mem owner (equal ▸ known)
            · simp [known, same]
        · simp at clean

/-- How the fields of a table share its slots: by their ids, if any has one, and one after another
if none has. -/
structure SharesSlots (raw : List Field) (t : Catalog.TableType) : Prop where
  perm : (t.fields.flatMap Catalog.TableField.slots).Perm (List.range t.slotCount)
  explicit :
    (∃ fld ∈ raw, Attribute.has fld.attributes "id" = true) →
      List.Forall₂ (fun fld kept => HasSlot fld kept.slot) raw t.fields
  implicit :
    (∀ fld ∈ raw, Attribute.has fld.attributes "id" = false) →
      t.fields.flatMap Catalog.TableField.slots = List.range t.slotCount

/-- What a checked table keeps of the written one. -/
structure KeepsTable (ctx : Context) (enums : EnumTypes) (ns : List String) (raw : List Field)
    (t : Catalog.TableType) : Prop where
  kept : List.Forall₂ (KeepsField ctx enums ns) raw t.fields
  nodup_names : (raw.map Field.name).Nodup
  shares : SharesSlots raw t
  members : (liveMembers t.fields).Pairwise fun fst snd => fst.1 = snd.1 → fst.2 = snd.2

theorem KeepsTable.nodup_slots (keeps : KeepsTable ctx enums ns raw ty) :
    (ty.fields.flatMap Catalog.TableField.slots).Nodup :=
  keeps.shares.perm.nodup_iff.mpr List.nodup_range

theorem KeepsTable.slot_lt (keeps : KeepsTable ctx enums ns raw ty) :
    ∀ slot ∈ ty.fields.flatMap Catalog.TableField.slots, slot < ty.slotCount :=
  fun _ mem => List.mem_range.mp (keeps.shares.perm.mem_iff.mp mem)

/-- Slots without gaps are shared by the fields. -/
theorem TableInvariant.sharesSlots (holds : TableInvariant ctx enums ns explicit raw s)
    (chosen : explicit = true ↔ ∃ fld ∈ raw, Attribute.has fld.attributes "id" = true)
    (full : explicit = true → s.owners.length = slotCountOf s.owners) :
    SharesSlots raw ⟨s.fields, slotCountOf s.owners⟩ := by
  have n : s.owners.length = slotCountOf s.owners := by
    grind [length_eq_slotCountOf, following]
  refine ⟨?_, fun some => holds.numbered (chosen.mpr some), fun none => ?_⟩
  · rw [← holds.owners_eq]
    exact perm_range_slotCountOf holds.nodup_owners n
  · have implicit : explicit = false := by
      grind
    have tail := holds.following implicit
    rw [← n, ← holds.owners_eq, tail, ← List.length_map (f := Prod.fst), tail, List.length_range]

/-- A checked table has the fields that are written, at slots of their own. -/
theorem tableType_of_clean (accepted : AllAccepted ctx enums)
    (clean : (tableType ctx enums sym fs).Clean) :
    KeepsTable ctx enums sym.decl.scope fs (tableType ctx enums sym fs).value := by
  unfold tableType at clean ⊢
  simp only [Report.clean_bind, Report.value_bind, Report.clean_found] at clean ⊢
  rcases clean with ⟨_, namesClean, clean⟩
  split at clean
  · simp at clean
  · next uniform =>
      rw [if_neg uniform]
      simp only [Report.clean_bind, Report.value_bind] at clean ⊢
      generalize pick :
        (!(fs.filter fun fld => Attribute.has fld.attributes "id").isEmpty) = explicit
        at uniform clean ⊢
      have chosen : explicit = true ↔ ∃ fld ∈ fs, Attribute.has fld.attributes "id" = true := by
        rw [← pick]
        simp
      have numbered : ∀ fld ∈ fs, explicit = true → Attribute.has fld.attributes "id" = true := by
        intro fld mem isExplicit
        simp_all
      have holds :=
        Report.through_induction
          (motive := TableInvariant ctx enums sym.decl.scope explicit)
          (tableInvariant_start ctx enums sym.decl.scope explicit)
          (by
            grind [tableField_of_clean])
          clean.1
      rcases clean.2 with ⟨membersClean, clean⟩
      have names := nodup_of_repeatedFields namesClean
      have members := (apart_of_memberClashes membersClean).1
      split at clean
      · simp at clean
      · next fewKeys =>
          rw [if_neg fewKeys]
          have shares := holds.sharesSlots chosen
          cases explicit with
          | false =>
            exact ⟨holds.kept, names.1,
              shares fun isExplicit => absurd isExplicit Bool.false_ne_true, members⟩
          | true =>
            rw [if_pos rfl, Report.clean_bind] at clean
            exact ⟨holds.kept, names.1, shares fun _ => length_of_gappedSlots clean.1, members⟩

end Check

end FlatSchema
