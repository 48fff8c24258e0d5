import FlatSchema.Check
import FlatSchema.Proofs.Symbols
import Mathlib.Data.List.Forall2

/-!
# Members of checked declarations

A check that reports no error has kept every member: enumeration values, union
variants, table fields and methods correspond one to one, in order, to those
that are written.  Each correspondence also says what the kept member is made
of, so that later arguments never look into the checks again.
-/

namespace FlatSchema

open Report

variable {ctx : Context} {sym : Symbol} {s : EnumState} {v : EnumValue}

/-- A function of the elements agrees on corresponding lists. -/
theorem map_eq_of_forall₂
    {ofRight : β → γ} {lefts : List α} {rights : List β} (all : List.Forall₂ rel lefts rights)
    (agree : ∀ left right, rel left right → ofRight right = ofLeft left) :
    rights.map ofRight = lefts.map ofLeft := by
  induction all with grind

namespace Check

/-! ## Types -/

/-- What a type written in a scope stands for. -/
inductive Denotes (symbols : SymbolTable) (ns : List String) : TypeExpr → FieldType → Prop where
  | scalar (kind : ScalarKind) (span : Span) : Denotes symbols ns (.scalar kind span) (.scalar kind)
  | string (span : Span) : Denotes symbols ns (.string span) .string
  | named {name : String} {id : Nat} (span : Span)
      (resolved : symbols.resolve name ns = .resolved id) :
      Denotes symbols ns (.named name span) (.named id)
  | vector {elem : TypeExpr} {ty : FieldType} (span : Span) (means : Denotes symbols ns elem ty)
      (flat : ∀ inner, ty ≠ .vector inner)
      (notUnion : ∀ id, ty = .named id → symbols.kind? id ≠ some .union)
      (notService : ∀ id, ty = .named id → symbols.kind? id ≠ some .service) :
      Denotes symbols ns (.vector elem span) (.vector ty)

theorem Context.isNamed_eq_false (absent : ¬ ctx.isNamed kind ty = true) :
    ∀ id, ty = .named id → ctx.symbols.kind? id ≠ some kind := by
  rintro id rfl equal
  exact absent (by simp [Context.isNamed, equal])

/-- A type that is checked without an error stands for a type of the catalog. -/
theorem Context.denotes_of_clean (clean : (ctx.fieldType ns ty).Clean) :
    ∃ resolved,
      (ctx.fieldType ns ty).value = some resolved ∧ Denotes ctx.symbols ns ty resolved := by
  induction ty with
  | scalar kind span => exact ⟨.scalar kind, rfl, .scalar kind span⟩
  | string span => exact ⟨.string, rfl, .string span⟩
  | named name span =>
    simp only [Context.fieldType, clean_bind, clean_pure, and_true] at clean
    rcases SymbolTable.resolve_of_clean clean with ⟨id, resolved, v⟩
    refine ⟨.named id, ?_, .named span resolved⟩
    simp [Context.fieldType, v]
  | vector elem span ih =>
    have nested : ∀ inner innerSpan, elem ≠ .vector inner innerSpan := by
      rintro inner innerSpan rfl
      simp [Context.fieldType] at clean
    have unfolded :
        ctx.fieldType ns (.vector elem span) =
          ctx.fieldType ns elem >>= fun resolved =>
            resolved.elim (return none) (ctx.vectorOf span) := by
      cases elem with
      | vector inner innerSpan => exact absurd rfl (nested inner innerSpan)
      | scalar | string => rfl
      | named name nameSpan =>
        grind [fieldType, vectorOf, Clean]
    rw [unfolded, clean_bind] at clean
    rcases ih clean.1 with ⟨resolved, v, means⟩
    rw [unfolded]
    rw [v] at clean
    simp only [value_bind, v]
    have flat : ∀ inner, resolved ≠ .vector inner := by
      rintro inner rfl
      cases means with
      | vector innerSpan _ _ _ _ => exact nested _ innerSpan rfl
    simp only [Context.vectorOf, Option.elim_some] at clean ⊢
    split at clean
    · simp at clean
    · next notUnion =>
        split at clean
        · simp at clean
        · next notService =>
            rw [if_neg notUnion, if_neg notService]
            exact ⟨.vector resolved, rfl, .vector span means flat
              (Context.isNamed_eq_false notUnion) (Context.isNamed_eq_false notService)⟩

/-! ## Enumerations -/

/-- The value of an enumeration that was kept for a written one. -/
def KeepsValue (raw : EnumValue) (kept : Catalog.EnumValue) : Prop :=
  kept.name = raw.name ∧ kept.doc = raw.doc

/-- A value that ascends without an error changes neither what was kept nor the verdict. -/
theorem EnumState.ascend_of_clean (clean : (s.ascend v num).Clean) :
    (s.ascend v num).value = { s with names := s.names ++ [v.name], previous := some num } := by
  unfold EnumState.ascend at clean ⊢
  split at clean
  · split at clean
    · simp at clean
    · next ascends => rw [if_neg ascends]; rfl
  · rfl

/-- A value that is accepted without an error is kept at the end. -/
theorem EnumState.accept_of_clean (clean : (s.accept base v num).Clean) :
    (s.accept base v num).value = { s with values := s.values ++ [⟨v.name, num, v.doc⟩] } := by
  unfold EnumState.accept at clean ⊢
  split at clean
  · next holds => rw [if_pos holds]; rfl
  · simp at clean

/-- A checked enumeration value is kept, and nothing else changes its verdict. -/
theorem enumValue_of_clean (clean : (enumValue enum base bitFlags s v).Clean) :
    ∃ num,
      (enumValue enum base bitFlags s v).value.values = s.values ++ [⟨v.name, num, v.doc⟩] ∧
        (enumValue enum base bitFlags s v).value.sound = s.sound := by
  unfold enumValue at clean ⊢
  split at clean
  · simp at clean
  · next fresh =>
      rw [if_neg fresh]
      simp only [clean_bind, value_bind] at clean ⊢
      rw [EnumState.ascend_of_clean clean.1] at clean ⊢
      split at clean
      · next flags =>
          unfold EnumState.acceptFlag at clean ⊢
          split at clean
          · simp at clean
          simp_all [EnumState.accept_of_clean, if_neg]
      simp_all [EnumState.accept_of_clean, if_neg]

/-- A checked enumeration has the values that are written. -/
theorem enumType_of_clean (clean : (enumType ctx sym base vs).Clean) :
    ∃ ty, (enumType ctx sym base vs).value = some ty ∧ List.Forall₂ KeepsValue vs ty.values := by
  unfold enumType at clean ⊢
  simp only [clean_bind, value_bind] at clean ⊢
  replace clean := clean.2
  split at clean
  · simp at clean
  · next kind integral =>
      split at clean
      · simp at clean
      · next nonempty =>
          simp only [clean_bind, value_bind, clean_pure, and_true] at clean ⊢
          have kept :=
            through_induction
              (motive := fun passed s => List.Forall₂ KeepsValue passed s.values ∧ s.sound = true)
              ⟨.nil, rfl⟩
              (by
                intro passed v s _ holds stepClean
                rcases enumValue_of_clean stepClean with ⟨num, valuesEqual, soundEqual⟩
                rw [valuesEqual, soundEqual]
                exact ⟨List.rel_append holds.1 (.cons ⟨rfl, rfl⟩ .nil), holds.2⟩)
              clean
          simp_all

/-! ## Unions -/

/-- The variant that was kept for a written one. -/
structure KeepsVariant (ctx : Context) (ns : List String) (raw : Variant)
    (kept : Catalog.Variant) : Prop where
  name_eq : kept.name = variantName raw.typeName
  doc_eq : kept.doc = raw.doc
  resolved : ctx.symbols.resolve raw.typeName ns = .resolved kept.table
  isTable : ctx.symbols.kind? kept.table = some .table

/-- Variants that a tag, a name or a table tells apart. -/
structure DistinctVariants (alts : List Catalog.Variant) : Prop where
  tags_eq : alts.map Catalog.Variant.tag = List.range' 1 alts.length
  nodup_names : (alts.map Catalog.Variant.name).Nodup
  nodup_tables : (alts.map Catalog.Variant.table).Nodup

theorem distinctVariants_nil : DistinctVariants [] :=
  ⟨rfl, List.nodup_nil, List.nodup_nil⟩

/-- An element that differs from all others can be added to distinct ones. -/
theorem nodup_concat {last : α} (nodup : elems.Nodup)
    (fresh : last ∉ elems) : (elems ++ [last]).Nodup := by
  simpa [List.nodup_append] using ⟨nodup, fun _ old same => fresh (same ▸ old)⟩

theorem DistinctVariants.concat (distinct : DistinctVariants alts)
    (tag_eq : alt.tag = alts.length + 1) (freshName : ∀ other ∈ alts, other.name ≠ alt.name)
    (freshTable : ∀ other ∈ alts, other.table ≠ alt.table) : DistinctVariants (alts ++ [alt]) where
  tags_eq := by
    rw [List.map_append, List.length_append, List.length_singleton, List.range'_concat,
      distinct.tags_eq]
    grind
  nodup_names := by
    grind [nodup_concat, nodup_names, List.map_append]
  nodup_tables := by
    rw [List.map_append]
    refine nodup_concat distinct.nodup_tables ?_
    intro mem
    rcases List.mem_map.mp mem with ⟨other, fits, equal⟩
    exact freshTable other fits equal

/-- A checked variant is added with the next tag and a name and table of its own. -/
theorem unionVariant_of_clean (clean : (unionVariant ctx sym ok alt).Clean) :
    ∃ kept : Catalog.Variant,
      (unionVariant ctx sym ok alt).value = ok ++ [kept] ∧
        KeepsVariant ctx sym.decl.scope alt kept ∧ kept.tag = ok.length + 1 ∧
        ∀ other ∈ ok, other.name ≠ kept.name ∧ other.table ≠ kept.table := by
  unfold unionVariant at clean ⊢
  simp only [clean_bind, value_bind] at clean ⊢
  rcases SymbolTable.resolve_of_clean clean.1 with ⟨t, resolved, v⟩
  rw [v] at clean ⊢
  simp only at clean ⊢
  split at clean
  · simp at clean
  · next isTable =>
      rw [if_neg isTable]
      split at clean
      · simp at clean
      · next fresh =>
          rw [if_neg fresh]
          refine ⟨_, rfl, ⟨rfl, rfl, resolved, by simpa using isTable⟩, rfl, ?_⟩
          grind

/-- A checked union has the variants that are written, told apart in three ways. -/
theorem unionType_of_clean (clean : (unionType ctx sym alts).Clean) :
    ∃ ty,
      (unionType ctx sym alts).value = some ty ∧
        List.Forall₂ (KeepsVariant ctx sym.decl.scope) alts ty.variants ∧
        DistinctVariants ty.variants ∧ ty.variants.length ≤ maxVariants := by
  unfold unionType at clean ⊢
  simp only [clean_bind, value_bind] at clean ⊢
  replace clean := clean.2.2
  split at clean
  · simp at clean
  · next nonempty =>
      rw [if_neg nonempty]
      split at clean
      · simp at clean
      · next short =>
          rw [if_neg short]
          simp only [clean_bind, value_bind, clean_pure, and_true] at clean ⊢
          have kept :=
            through_induction
              (motive := fun passed ok =>
                List.Forall₂ (KeepsVariant ctx sym.decl.scope) passed ok ∧ DistinctVariants ok)
              ⟨.nil, distinctVariants_nil⟩
              (by
                intro passed alt ok _ holds stepClean
                rcases unionVariant_of_clean stepClean with ⟨kept, equal, keeps, tag, fresh⟩
                rw [equal]
                exact ⟨List.rel_append holds.1 (.cons keeps .nil),
                  holds.2.concat tag (fun other mem => (fresh other mem).1)
                    (fun other mem => (fresh other mem).2)⟩)
              clean
          refine ⟨_, rfl, kept.1, kept.2, ?_⟩
          rw [← kept.1.length_eq]
          omega

/-! ## Services -/

/-- The method that was kept for a written one. -/
structure KeepsMethod (ctx : Context) (ns : List String) (raw : Method)
    (kept : Catalog.Method) : Prop where
  name_eq : kept.name = raw.name
  doc_eq : kept.doc = raw.doc
  attributes_eq : kept.attributes = raw.attributes.map Attribute.toCatalog
  request : ctx.symbols.resolve raw.requestType ns = .resolved kept.request
  requestIsTable : ctx.symbols.kind? kept.request = some .table
  response : ctx.symbols.resolve raw.responseType ns = .resolved kept.response
  responseIsTable : ctx.symbols.kind? kept.response = some .table

/-- A message that is checked without an error is a table. -/
theorem messageTable_of_clean (clean : (messageTable ctx ns role name span).Clean) :
    ∃ id,
      (messageTable ctx ns role name span).value = some id ∧
        ctx.symbols.resolve name ns = .resolved id ∧ ctx.symbols.kind? id = some .table := by
  unfold messageTable at clean ⊢
  simp only [clean_bind, value_bind] at clean ⊢
  rcases SymbolTable.resolve_of_clean clean.1 with ⟨id, resolved, v⟩
  rw [v] at clean ⊢
  simp only at clean ⊢
  split at clean
  · simp_all
  · simp at clean

/-- A streaming mode that is checked without an error is known. -/
theorem streamingMode_of_clean (clean : (streamingMode service method).Clean) :
    ∃ mode, (streamingMode service method).value = some mode := by
  unfold streamingMode at clean ⊢
  split at clean
  · exact ⟨_, rfl⟩
  · split at clean
    · exact ⟨_, rfl⟩
    · simp at clean

theorem serviceMethod_of_clean (clean : (serviceMethod ctx sym seen method).Clean) :
    ∃ kept,
      (serviceMethod ctx sym seen method).value = some kept ∧
        KeepsMethod ctx sym.decl.scope method kept := by
  unfold serviceMethod at clean ⊢
  simp only [clean_bind, value_bind] at clean ⊢
  replace clean := clean.2
  split at clean
  · simp at clean
  · next fresh =>
      rw [if_neg fresh]
      simp only [clean_bind, value_bind] at clean ⊢
      rcases clean with ⟨requestClean, responseClean, modeClean, _⟩
      rcases messageTable_of_clean requestClean with ⟨request, requestValue, resolved, isTable⟩
      rcases messageTable_of_clean responseClean with
        ⟨response, responseValue, responseResolved, responseIsTable⟩
      rcases streamingMode_of_clean modeClean with ⟨mode, modeValue⟩
      rw [requestValue, responseValue, modeValue]
      exact ⟨_, rfl, rfl, rfl, rfl, resolved, isTable, responseResolved, responseIsTable⟩

theorem serviceMethods_of_clean (clean : (serviceMethods ctx sym seen methods).Clean) :
    List.Forall₂ (KeepsMethod ctx sym.decl.scope) methods
      (serviceMethods ctx sym seen methods).value := by
  induction methods generalizing seen with
  | nil => exact .nil
  | cons method rest ih =>
    simp only [serviceMethods, clean_bind, value_bind, clean_pure, and_true,
      value_pure] at clean ⊢
    rcases serviceMethod_of_clean clean.1 with ⟨kept, v, keeps⟩
    rw [v]
    exact .cons keeps (ih clean.2)

/-- A checked service has the methods that are written. -/
theorem serviceType_of_clean (clean : (serviceType ctx sym methods).Clean) :
    List.Forall₂ (KeepsMethod ctx sym.decl.scope) methods
      (serviceType ctx sym methods).value.methods := by
  simp only [serviceType, clean_bind, clean_pure, and_true] at clean
  exact serviceMethods_of_clean clean.2

end Check

end FlatSchema
