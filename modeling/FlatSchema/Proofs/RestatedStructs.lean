import FlatSchema.Proofs.RestatedFields

/-!
# Structs that are stated again

Structs are resolved one by one, searched for cycles and laid out together.
None of these steps looks at more of a field than its name, type and
attributes, so structs that are stated again get the same layouts.
-/

namespace FlatSchema

open Report

/-! ## Cycles -/

namespace CycleSearch

/-- Two searches that have learnt the same; the second is silent unless the first has an error. -/
structure Alike (search again : CycleSearch) : Prop where
  done_eq : again.done = search.done
  onCycle_eq : again.onCycle = search.onCycle
  reported_eq : again.reported = search.reported
  silent : DiagnosticAt.hasErrors search.diagnostics = false → again.diagnostics = []

section

variable {t t' : SymbolTable}
variable (contained : ∀ id, t'.contained id = t.contained id)
variable (length_eq : t'.entries.length = t.entries.length)
include length_eq

theorem Alike.note (alike : Alike search again) (e : Nat) (cycle : List Nat) :
    Alike (CycleSearch.note t search e cycle) (CycleSearch.note t' again e cycle) := by
  unfold CycleSearch.note
  simp only [alike.reported_eq, alike.onCycle_eq]
  split
  · exact ⟨alike.done_eq, rfl, rfl, alike.silent⟩
  · cases hit : t.entries[e]? with
    | none =>
      have absent : t'.entries[e]? = none := by
        grind
      rw [absent]
      exact ⟨alike.done_eq, rfl, rfl, alike.silent⟩
    | some head =>
      have fits : e < t'.entries.length := by
        grind
      rw [List.getElem?_eq_getElem fits]
      refine ⟨alike.done_eq, rfl, rfl, ?_⟩
      intro clean
      simp at clean

include contained

theorem Alike.walk (depth : Nat) (path : List Nat) (alike : Alike search again) (id : Nat) :
    Alike (CycleSearch.walk t depth path search id) (CycleSearch.walk t' depth path again id) := by
  induction depth generalizing path search again id with
  | zero => exact alike
  | succ depth ih =>
    rw [CycleSearch.walk, CycleSearch.walk, contained]
    have searched :
        Alike
          ((t.contained id).foldl
            (fun search next =>
              if search.done.contains next then search
              else if (path ++ [id]).contains next then
                CycleSearch.note t search next ((path ++ [id]).dropWhile (· != next))
              else CycleSearch.walk t depth (path ++ [id]) search next)
            search)
          ((t.contained id).foldl
            (fun search next =>
              if search.done.contains next then search
              else if (path ++ [id]).contains next then
                CycleSearch.note t' search next ((path ++ [id]).dropWhile (· != next))
              else CycleSearch.walk t' depth (path ++ [id]) search next)
            again) := by
      refine List.foldl_rel alike ?_
      grind [done_eq, note]
    exact ⟨by rw [searched.done_eq], searched.onCycle_eq, searched.reported_eq, searched.silent⟩

end

end CycleSearch

theorem SymbolTable.structCycles_repeats {t t' : SymbolTable}
    (contained : ∀ id, t'.contained id = t.contained id)
    (length_eq : t'.entries.length = t.entries.length) (structIds_eq : t'.structIds = t.structIds) :
    Repeats (· = ·) t.structCycles t'.structCycles := by
  have searched : CycleSearch.Alike (CycleSearch.run t) (CycleSearch.run t') := by
    rw [CycleSearch.run, CycleSearch.run, structIds_eq]
    refine List.foldl_rel ⟨rfl, rfl, rfl, fun _ => rfl⟩ ?_
    grind [CycleSearch.Alike.done_eq, CycleSearch.Alike.walk]
  intro clean
  refine ⟨searched.silent clean, ?_⟩
  rw [structCycles, structCycles, searched.onCycle_eq]

namespace Check

/-! ## Drafts -/

/-- A struct field that is stated again. -/
structure RestatedStructField (raw again : Field) : Prop extends RestatedField raw again where
  default_eq : again.default = none

theorem forcedAlignment?_congr (same :
      (right.map fun lit => lit.value.toAttributeValue) =
        left.map fun lit => lit.value.toAttributeValue) :
    forcedAlignment? right = forcedAlignment? left := by
  refine reading_congr ?_ same
  rintro (_ | ⟨v, _⟩)
  · rfl
  · cases v <;> rfl

theorem forceAlign_repeats (head : RestatedHead sym sym') :
    Repeats (· = ·) (forceAlign sym) (forceAlign sym') := by
  unfold forceAlign
  cases hit : Attribute.find? sym.decl.attributes "force_align" with
  | none =>
    rw [head.attributes.find?_eq_none hit]
    exact .pure rfl
  | some own =>
    rcases head.attributes.find?_eq_some hit with ⟨other, stands, alike⟩
    grind [forcedAlignment?_congr, Repeats.ofProblem, Repeats.pure]

section

variable {ctx ctx' : Context} (agrees : ctx.Agrees ctx')
variable {sym sym' : Symbol} (head : RestatedHead sym sym')
include agrees

theorem isInline_again (ty : FieldType) : isInline ctx' ty = isInline ctx ty := by
  unfold isInline
  split
  · rfl
  · rw [agrees.isNamed_eq, agrees.isNamed_eq]

theorem shapeOf_again (enums : EnumTypes) (ty : Option FieldType) :
    shapeOf ctx' enums ty = shapeOf ctx enums ty := by
  unfold shapeOf
  split
  · rfl
  · rw [agrees.kind?_eq]
  · rfl

include head

theorem structFieldType_repeats (same : RestatedStructField raw restated) :
    Repeats (· = ·) (structFieldType ctx sym raw) (structFieldType ctx' sym' restated) := by
  have defaults :
      Repeats (· = ·) (structDefault sym.fullName raw) (structDefault sym'.fullName restated) := by
    intro _
    rw [structDefault, same.default_eq]
    exact ⟨rfl, rfl⟩
  have required :
      Repeats (· = ·) (structRequired sym.fullName raw)
        (structRequired sym'.fullName restated) := by
    unfold structRequired
    cases hit : Attribute.find? raw.attributes "required" with
    | none =>
      rw [same.attributes.find?_eq_none hit]
      exact .pure rfl
    | some own => exact fun clean => absurd clean (not_clean_report _ _)
  unfold structFieldType
  rw [head.scope_eq]
  refine .bind (agrees.attributes same.attributes) fun _ _ => ?_
  refine .bind defaults fun _ _ => .bind required fun _ _ => ?_
  refine .bind (agrees.fieldType _ same.type_eq) fun _ hit => ?_
  grind [Repeats.pure, isInline_again, Repeats.ofProblem]

end

/-- A draft that is stated again. -/
structure RestatedDraft (draft again : StructDraft) : Prop where
  id_eq : again.symbol.id = draft.symbol.id
  fields : List.Forall₂ RestatedField draft.fields again.fields
  types_eq : again.types = draft.types
  shape_eq : again.shape = draft.shape

theorem structDraft_repeats (agrees : ctx.Agrees ctx')
    (enums : EnumTypes) (head : RestatedHead sym sym')
    (restated : List.Forall₂ RestatedStructField fs fs') :
    Repeats RestatedDraft (structDraft ctx enums sym fs) (structDraft ctx' enums sym' fs') := by
  have plain : List.Forall₂ RestatedField fs fs' :=
    restated.imp fun _ _ same => same.toRestatedField
  have names : fs'.map Field.name = fs.map Field.name :=
    map_eq_of_forall₂ plain fun _ _ same => same.name_eq
  have shapes : shapeOf ctx' enums = shapeOf ctx enums :=
    funext (shapeOf_again agrees enums)
  refine .bind (agrees.attributes head.attributes) fun _ _ => ?_
  refine .bind (.found (repeatedFields_eq_nil _ names)) fun _ _ => ?_
  refine .refused (by simp) ?_ fun _ => ?_
  · rw [List.isEmpty_iff_length_eq_zero, List.isEmpty_iff_length_eq_zero, restated.length_eq]
    exact id
  refine .bind (.forEach (restated.imp fun _ _ same =>
    structFieldType_repeats agrees head same)) fun _ types => ?_
  refine .bind (forceAlign_repeats head) fun _ forced => ?_
  rw [List.forall₂_eq_eq_eq] at types
  refine .pure ⟨head.id_eq, plain, types.symm, ?_⟩
  simp only [shapes, ← types, ← forced]

/-! ## Layouts -/

theorem placedFields_again (same : List.Forall₂ RestatedField raw restated)
    (types : List (Option FieldType)) (places : List (Placement Nat)) :
    placedFields restated types places = placedFields raw types places := by
  induction same generalizing types places with
  | nil => rfl
  | @cons f other _ _ hd _ ih =>
    have placed : ∀ ty place, placedField other ty place = placedField f ty place := by
      intro ty place
      have attrs : other.attributes.map Attribute.toCatalog = _ := hd.attributes
      simp only [placedField, hd.name_eq, hd.doc_eq, attrs]
    cases types with
    | nil => rfl
    | cons ty types =>
      cases places with
      | nil => cases ty <;> rfl
      | cons place places =>
        cases ty with
        | none => exact ih types places
        | some ty => rw [placedFields, placedFields, placed, ih]

theorem structTypes_again (restated : List.Forall₂ RestatedDraft drafts draftsAgain)
    (cyclic : List Nat) : structTypes draftsAgain cyclic = structTypes drafts cyclic := by
  have shapes :
      (draftsAgain.map fun draft => (draft.symbol.id, draft.shape)) =
        drafts.map fun draft => (draft.symbol.id, draft.shape) :=
    map_eq_of_forall₂ restated fun _ _ same => by rw [same.id_eq, same.shape_eq]
  rw [structTypes, structTypes, shapes]
  generalize
    StructLayout.ofShapes (drafts.map fun draft => (draft.symbol.id, draft.shape)) = layouts
  clear shapes
  induction restated with
  | nil => rfl
  | cons hd _ ih =>
    rw [List.filterMap_cons, List.filterMap_cons, ih, hd.id_eq, hd.types_eq]
    simp only [placedFields_again hd.fields]

end Check

end FlatSchema
