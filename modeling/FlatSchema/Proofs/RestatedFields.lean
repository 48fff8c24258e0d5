import FlatSchema.Proofs.NumeralText
import FlatSchema.Proofs.Restated

/-!
# Fields that are stated again

A default that was kept is written in full or left out; both times the check
finds it again.  All else that the check of a table asks of a field (its type,
its slots, its members) follows from what a catalog keeps of the field, so
tables and structs that are stated again come out the same.
-/

namespace FlatSchema.Check

open Attribute (find? has)
open Canonical (defaultOf)

variable {raw restated : Field}

open Report

/-- A field that is stated again, its default apart. -/
structure RestatedField (raw again : Field) : Prop where
  name_eq : again.name = raw.name
  doc_eq : again.doc = raw.doc
  type_eq : again.type.unplaced = raw.type.unplaced
  attributes : Attribute.Restates raw.attributes again.attributes

/-- Fields with the names of fields without repetitions have none. -/
theorem repeatedFields_eq_nil (ownerAgain : String) {raw restated : List Field}
    (names : restated.map Field.name = raw.map Field.name)
    (clean : DiagnosticAt.hasErrors (repeatedFields owner seen raw) = false) :
    repeatedFields ownerAgain seen restated = [] := by
  induction raw generalizing seen restated with
  | nil =>
    rw [List.map_nil, List.map_eq_nil_iff] at names
    rw [names, repeatedFields]
  | cons hd rest ih =>
    cases restated with
    | nil => cases names
    | cons other others =>
      rw [repeatedFields] at clean ⊢
      split at clean
      · simp at clean
      grind

/-! ## Defaults -/

theorem eq_zero_of_isZero (isZero : (v.isZero && !v.isNegative) = true) : v = Double.zero := by
  rw [Bool.and_eq_true, Double.isZero, decide_eq_true_iff, Bool.not_eq_true', Double.isNegative,
    decide_eq_false_iff_not, Nat.not_le] at isZero
  have none : v.bits.toNat = 0 := (Nat.mod_eq_of_lt isZero.2).symm.trans isZero.1
  have bits : v.bits = 0 := UInt64.toNat_inj.mp none
  exact congrArg Double.mk bits

theorem scalarDefault_again (hit : scalarDefault kind lit = .ok v) :
    scalarDefault kind (defaultOf v) = .ok v := by
  cases kind with
  | bool =>
    have isBool : ∃ own, v = .bool own := by
      unfold scalarDefault at hit
      simp only at hit
      split at hit
      · cases hit
        exact ⟨_, rfl⟩
      · cases hit
        exact ⟨_, rfl⟩
      · grind
      · cases hit
    rcases isBool with ⟨own, rfl⟩
    cases own <;> rfl
  | float32 | float64 =>
    have isFloat : ∃ own, v = .float own := by
      unfold scalarDefault at hit
      grind
    rcases isFloat with ⟨own, rfl⟩
    rw [defaultOf]
    split
    · next isZero =>
        rw [eq_zero_of_isZero isZero]
        rfl
    · rfl
  | int8 | uint8 | int16 | uint16 | int32 | uint32 | int64 | uint64 =>
    cases lit with
    | none =>
      cases hit
      rfl
    | some own =>
      cases own with
      | int num =>
        simp only [scalarDefault] at hit
        split at hit
        · grind [ScalarKind.holds, defaultOf, scalarDefault]
        · cases hit
      | float | bool | string | name => cases hit

/-- The default of a field of an enumeration is a number of it that fits. -/
theorem enumDefault_isNumber (holds : ∀ v ∈ enum.values, enum.underlying.holds v.value = true)
    (hit : enumDefault name enum lit = .ok v) :
    ∃ num, v = .int num ∧ isEnumNumber enum num = true ∧
      (num = 0 ∨ enum.underlying.holds num = true) := by
  unfold enumDefault at hit
  split at hit
  · grind
  · split at hit
    · grind [ScalarKind.holds, isEnumNumber]
    · cases hit
  · grind
  · cases hit

theorem enumDefault_again (nameAgain : String)
    (holds : ∀ v ∈ enum.values, enum.underlying.holds v.value = true)
    (hit : enumDefault name enum lit = .ok v) :
    enumDefault nameAgain enum (Canonical.defaultOf v) = .ok v := by
  rcases enumDefault_isNumber holds hit with ⟨num, rfl, isNumber, fits⟩
  rw [Canonical.defaultOf]
  split
  · next isZero =>
      rw [isZero] at isNumber ⊢
      exact if_pos isNumber
  · grind [enumDefault]

/-- Accepted enumerations whose values fit. -/
def SoundEnums (enums : EnumTypes) : Prop :=
  ∀ id enum, enums.lookup id = some enum →
    ∀ v ∈ enum.values, enum.underlying.holds v.value = true

/-- A default that was kept is found again where it is written in full or left out. -/
theorem defaultOf?_again (agrees : ctx.Agrees ctx') (sound : SoundEnums enums)
    (hit : defaultOf? ctx enums ty lit = some (.ok v)) :
    defaultOf? ctx' enums ty (defaultOf v) = some (.ok v) := by
  have absent :
      ∀ own : Option LiteralValue, absentDefault own = .ok v →
        absentDefault (defaultOf v) = .ok v := by
    intro own given
    unfold absentDefault at given
    split at given
    · cases given
    · cases given
      rfl
  cases ty with
  | scalar kind => exact congrArg some (scalarDefault_again (Option.some.inj hit))
  | string | vector => exact congrArg some (absent _ (Option.some.inj hit))
  | named id =>
    simp only [defaultOf?] at hit ⊢
    split at hit
    · next enum known =>
        exact congrArg some (enumDefault_again _ (sound id enum known) (Option.some.inj hit))
    · next unknown =>
        rw [agrees.kind?_eq]
        grind

/-! ## Tables -/

/-- A type stands for one type only. -/
theorem Denotes.unique {raw : TypeExpr} (means : Denotes symbols ns raw fst)
    (denotesToo : Denotes symbols ns raw snd) : fst = snd := by
  induction means generalizing snd with
  | scalar | string => cases denotesToo; rfl
  | named _ resolved =>
    cases denotesToo with
    | named _ other =>
      cases resolved.symm.trans other
      rfl
  | vector _ _ _ _ _ ih =>
    cases denotesToo with
    | vector _ inner _ _ _ => rw [ih inner]

/-- A table field that is stated again, with the default that was kept or without it. -/
structure RestatedTableField (ctx : Context) (enums : EnumTypes) (ns : List String)
    (raw again : Field) : Prop extends RestatedField raw again where
  default_eq :
    ∀ ty, Denotes ctx.symbols ns raw.type ty →
      ∃ v,
        defaultOf? ctx enums ty (raw.default.map Literal.value) = some (.ok v) ∧
          again.default.map Literal.value = Canonical.defaultOf v

theorem idValue?_congr (same :
      (right.map fun lit => lit.value.toAttributeValue) =
        left.map fun lit => lit.value.toAttributeValue) : idValue? right = idValue? left := by
  refine reading_congr ?_ same
  rintro (_ | ⟨v, _⟩)
  · rfl
  · cases v <;> rfl

theorem explicitSlots_repeats (t t' : String) (raw restated : Field) (isUnion : Bool)
    (same :
      (other.value.map fun lit => lit.value.toAttributeValue) =
        own.value.map fun lit => lit.value.toAttributeValue) :
    Repeats (· = ·) (explicitSlots t raw isUnion own)
      (explicitSlots t' restated isUnion other) := by
  unfold explicitSlots
  rw [idValue?_congr same]
  cases idValue? own.value with
  | none => exact .ofProblem
  | some slot =>
    simp only
    split
    · exact .refused (by simp) id fun _ => .pure rfl
    · exact .pure rfl

theorem slotsOf_repeats (t t' : String) (explicit : Bool) (s : TableState)
    (same : RestatedField raw restated) (isUnion : Bool) :
    Repeats (· = ·) (slotsOf t explicit s raw isUnion)
      (slotsOf t' explicit s restated isUnion) := by
  unfold slotsOf
  split
  · cases hit : find? raw.attributes "id" with
    | none =>
      rw [same.attributes.find?_eq_none hit]
      exact .pure rfl
    | some own =>
      rcases same.attributes.find?_eq_some hit with ⟨other, stands, alike⟩
      grind [explicitSlots_repeats]
  · exact .pure rfl

theorem claimSlots_repeat (t t' : String) (same : RestatedField raw restated)
    (span span' : Span) (owners : List (Nat × String)) (slots : List Nat) :
    Repeats (· = ·) (Report.through (claimSlot t raw span) owners slots)
      (Report.through (claimSlot t' restated span') owners slots) := by
  have alike : List.Forall₂ (· = ·) slots slots := List.forall₂_refl slots
  refine .through alike ?_ rfl
  rintro slot _ rfl owners _ rfl
  unfold claimSlot
  rw [same.name_eq]
  cases owners.lookup slot with
  | some owner => exact .ofProblem
  | none => exact .pure rfl

section

variable {ctx ctx' : Context} (agrees : ctx.Agrees ctx')
variable {enums : EnumTypes} (sound : SoundEnums enums)
include agrees

theorem requiredScalar_repeats (t t' : String) (same : RestatedField raw restated)
    (ty : FieldType) :
    Repeats (· = ·) (requiredScalar ctx t raw ty) (requiredScalar ctx' t' restated ty) := by
  unfold requiredScalar
  cases hit : find? raw.attributes "required" with
  | none =>
    rw [same.attributes.find?_eq_none hit]
    exact .pure rfl
  | some own =>
    rcases same.attributes.find?_eq_some hit with ⟨other, stands, _⟩
    rw [stands]
    refine .refused (not_clean_report _ _) ?_ fun _ => .pure rfl
    grind [Context.Agrees.isNamed_eq]

include sound

theorem acceptField_repeats (t t' : String) (s : TableState)
    (same : RestatedTableField ctx enums ns raw restated)
    (means : Denotes ctx.symbols ns raw.type ty) (slots : FieldSlots) :
    Repeats (· = ·) (acceptField ctx enums t s raw ty slots)
      (acceptField ctx' enums t' s restated ty slots) := by
  rcases same.default_eq ty means with ⟨v, kept, stated⟩
  have default_eq : fieldDefault ctx enums t raw ty = ⟨some v, []⟩ := by
    rw [fieldDefault, kept]
    rfl
  have again_eq : fieldDefault ctx' enums t' restated ty = ⟨some v, []⟩ := by
    rw [fieldDefault, stated, defaultOf?_again agrees sound kept]
    rfl
  have slotted : slottedField restated ty slots v = slottedField raw ty slots v := by
    have attrs : restated.attributes.map Attribute.toCatalog = _ := same.attributes
    simp only [slottedField, same.name_eq, same.doc_eq, same.attributes.has_eq, attrs]
  unfold acceptField
  rw [default_eq, again_eq, same.attributes.has_eq]
  refine .bind (fun _ => ⟨rfl, rfl⟩) fun _ (_ : some v = some v) => ?_
  refine .bind (requiredScalar_repeats agrees t t' same.toRestatedField ty) fun _ _ => ?_
  simp only [slotted]
  exact .pure rfl

theorem tableField_repeats (head : RestatedHead sym sym') (explicit : Bool) (s : TableState)
    (same : RestatedTableField ctx enums sym.decl.scope raw restated) :
    Repeats (· = ·) (tableField ctx enums sym explicit s raw)
      (tableField ctx' enums sym' explicit s restated) := by
  have plain := same.toRestatedField
  unfold tableField
  rw [head.scope_eq]
  refine .bind (agrees.attributes same.attributes) fun _ _ => ?_
  refine .bind (agrees.fieldType _ same.type_eq) fun typeClean hit => ?_
  rw [← hit]
  rcases Context.denotes_of_clean typeClean with ⟨ty, v, means⟩
  rw [v]
  simp only [Option.any_some, agrees.isNamed_eq]
  refine .refused (by simp) id fun _ => ?_
  refine .bind (slotsOf_repeats _ _ explicit s plain _) fun _ chosen => ?_
  rw [← chosen]
  split
  · exact .pure rfl
  · next slots _ =>
      refine .bind (claimSlots_repeat _ _ plain _ _ s.owners slots.toList) fun _ owners => ?_
      grind [acceptField_repeats]

end

/-- Whether members clash does not depend on places. -/
theorem memberClashes_eq_nil (sym' : Symbol) (declaredAgain : List Field)
    (clean : DiagnosticAt.hasErrors (memberClashes sym declared owners members) = false) :
    memberClashes sym' declaredAgain owners members = [] := by
  induction members generalizing owners with
  | nil => rfl
  | cons hd rest ih =>
    rcases hd with ⟨mem, name⟩
    rw [memberClashes] at clean ⊢
    cases known : owners.lookup mem with
    | none =>
      simp only [known] at clean
      exact ih clean
    | some owner =>
      simp only [known] at clean ⊢
      split at clean
      · grind
      · simp at clean

theorem gappedSlots_repeats (sym sym' : Symbol) (owners : List (Nat × String)) :
    Repeats (· = ·) (gappedSlots sym owners) (gappedSlots sym' owners) := by
  exact .refused (not_clean_report _ _) id fun _ => .pure rfl

/-- Fields that have an attribute in both statements are equally many. -/
theorem length_filter_has {raw restated : List Field}
    (same : List.Forall₂ RestatedField raw restated) (name : String) :
    (restated.filter fun f => has f.attributes name).length =
      (raw.filter fun f => has f.attributes name).length := by
  induction same with
  | nil => rfl
  | cons hd _ ih =>
    rw [List.filter_cons, List.filter_cons, hd.attributes.has_eq]
    split
    · rw [List.length_cons, List.length_cons, ih]
    · exact ih

theorem tableType_repeats {ctx ctx' : Context} (agrees : ctx.Agrees ctx')
    (sound : SoundEnums enums) (head : RestatedHead sym sym')
    (restated : List.Forall₂ (RestatedTableField ctx enums sym.decl.scope) fs fs') :
    Repeats (· = ·) (tableType ctx enums sym fs) (tableType ctx' enums sym' fs') := by
  have plain : List.Forall₂ RestatedField fs fs' :=
    restated.imp fun _ _ same => same.toRestatedField
  have names : fs'.map Field.name = fs.map Field.name :=
    map_eq_of_forall₂ plain fun _ _ same => same.name_eq
  have numbered := length_filter_has plain "id"
  have explicit :
      (fs'.filter fun f => Attribute.has f.attributes "id").isEmpty =
        (fs.filter fun f => Attribute.has f.attributes "id").isEmpty := by
    rw [Bool.eq_iff_iff, List.isEmpty_iff_length_eq_zero, List.isEmpty_iff_length_eq_zero, numbered]
  refine .bind (agrees.attributes head.attributes) fun _ _ => ?_
  refine .bind (.found (repeatedFields_eq_nil _ names)) fun _ _ => ?_
  dsimp only
  rw [numbered, explicit, ← restated.length_eq]
  refine .refused (by simp) id fun _ => ?_
  refine .bind (.through restated ?_ rfl) fun _ s => ?_
  · grind [tableField_repeats]
  rw [← s]
  refine .bind (.found (memberClashes_eq_nil _ _)) fun _ _ => ?_
  refine .refused (by simp) id fun _ => ?_
  split
  · exact .bind (gappedSlots_repeats sym sym' _) fun _ _ => .pure rfl
  · exact .pure rfl

end FlatSchema.Check
