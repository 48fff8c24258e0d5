import FlatSchema.Emit.Canonical
import FlatSchema.Proofs.CheckedStructs
import FlatSchema.Proofs.Repetition

/-!
# Declarations that are stated again

A declaration may be stated again with an explicit number for each value of an
enumeration, with an integer for the name of a value, with a string for a name
in an attribute, and without a default that the field has anyway.  If the
first statement is checked without an error, the second one gives the same
enumeration, union, table or service.
-/

namespace FlatSchema.Check

open EnumState

variable {base : TypeExpr} {bitFlags : Bool} {s : EnumState} {vs : List EnumValue}
  {ctx : Context} {ty : Catalog.EnumType}

open Report

/-- Two symbols that declare the same, as far as the head of the declaration goes. -/
structure RestatedHead (sym again : Symbol) : Prop where
  id_eq : again.id = sym.id
  fullName_eq : again.fullName = sym.fullName
  name_eq : again.decl.name = sym.decl.name
  scope_eq : again.decl.scope = sym.decl.scope
  doc_eq : again.decl.doc = sym.decl.doc
  attributes : Attribute.Restates sym.decl.attributes again.decl.attributes

/-! ## Enumerations -/

/-- The value that a number stands for: with bit flags the number is a position. -/
def flagged (bitFlags : Bool) (num : Int) : Int :=
  if bitFlags then (Nat.pow 2 num.toNat : Nat) else num

/-- A number that a state takes for a value of a name. -/
structure EnumState.Admits (s : EnumState) (base : ScalarKind) (bitFlags : Bool) (name : String)
    (num : Int) : Prop where
  fresh : ¬ s.names.contains name = true
  ascends : ∀ previous, s.previous = some previous → previous < num
  inside : bitFlags = true → 0 ≤ num ∧ num < (8 * base.size : Nat)
  holds : base.holds (flagged bitFlags num) = true

/-- A state after one more value. -/
def EnumState.extend (s : EnumState) (bitFlags : Bool) (v : EnumValue) (num : Int) : EnumState :=
  ⟨s.names ++ [v.name], some num,
    s.values ++ [⟨v.name, flagged bitFlags num, v.doc⟩], s.sound⟩

section

variable {base : ScalarKind}

theorem enumValue_of_admits (admits : s.Admits base bitFlags v.name (s.number v)) :
    enumValue enum base bitFlags s v = ⟨s.extend bitFlags v (s.number v), []⟩ := by
  have ascended :
      s.ascend v (s.number v) =
        ⟨{ s with
            names := s.names ++ [v.name], previous := some (s.number v) }, []⟩ := by
    unfold ascend
    cases known : s.previous with
    | none => rfl
    | some previous =>
      simp only
      rw [if_neg (Int.not_le.mpr (admits.ascends previous known))]
      rfl
  rw [enumValue, if_neg admits.fresh]
  simp only [ascended]
  change (if bitFlags then _ else _ : Report EnumState) = _
  have holds := admits.holds
  split
  · next flags =>
      rw [flagged, if_pos flags] at holds
      have fits := admits.inside flags
      rw [acceptFlag, if_neg (by simp; omega), accept, if_pos holds,
        extend, flagged, if_pos flags]
      rfl
  · next flags =>
      rw [flagged, if_neg flags] at holds
      rw [accept, if_pos holds, extend, flagged, if_neg flags]
      rfl

theorem admits_of_clean (clean : (enumValue enum base bitFlags s v).Clean) :
    s.Admits base bitFlags v.name (s.number v) := by
  unfold enumValue at clean
  split at clean
  · simp at clean
  · next fresh =>
      simp only [Report.clean_bind] at clean
      have ascends : ∀ previous, s.previous = some previous → previous < s.number v := by
        intro previous known
        have ordered := clean.1
        unfold ascend at ordered
        simp only [known] at ordered
        split at ordered
        · simp at ordered
        · omega
      split at clean
      · next flags =>
          unfold acceptFlag at clean
          split at clean
          · simp at clean
          · next fits =>
              simp only [Bool.or_eq_true, decide_eq_true_iff, not_or, Int.not_lt, Int.not_le]
                at fits
              refine ⟨fresh, ascends, fun _ => fits, ?_⟩
              unfold accept at clean
              split at clean
              · simp_all [flagged, if_pos]
              · simp at clean
      · next flags =>
          refine ⟨fresh, ascends, fun given => absurd given flags, ?_⟩
          unfold accept at clean
          split at clean
          · simp_all [flagged, if_neg]
          · simp at clean

/-- A value that is stated again with the number that it has. -/
structure RestatedValue (bitFlags : Bool) (kept : Catalog.EnumValue)
    (again : EnumValue) : Prop where
  name_eq : again.name = kept.name
  doc_eq : again.doc = kept.doc
  value_eq : again.value = some (Canonical.enumNumber bitFlags kept.value)

/-- The number of a value is found again. -/
theorem EnumState.Admits.enumNumber_eq (admits : s.Admits base bitFlags name num) :
    Canonical.enumNumber bitFlags (flagged bitFlags num) = num := by
  unfold Canonical.enumNumber flagged
  cases bitFlags with
  | false => rfl
  | true =>
    have positive := (admits.inside rfl).1
    have pos : (Nat.pow 2 num.toNat).log2 = num.toNat := Nat.log2_two_pow
    grind

/-- What a run over the values of an enumeration keeps, and that restated values repeat the run. -/
theorem enumValues_repeat (enumAgain : String)
    (clean : (Report.through (enumValue enum base bitFlags) s vs).Clean) :
    ∃ kept,
      (Report.through (enumValue enum base bitFlags) s vs).value.values = s.values ++ kept ∧
        (∀ v ∈ kept, base.holds v.value = true) ∧
        ∀ again, List.Forall₂ (RestatedValue bitFlags) kept again →
          Report.through (enumValue enumAgain base bitFlags) s again =
            ⟨(Report.through (enumValue enum base bitFlags) s vs).value, []⟩ := by
  induction vs generalizing s with
  | nil =>
    refine ⟨[], (List.append_nil _).symm, by simp, ?_⟩
    intro again restated
    cases restated
    rfl
  | cons hd rest ih =>
    rw [through_cons, clean_bind] at clean
    have admits := admits_of_clean clean.1
    have stepped : enumValue enum base bitFlags s hd = _ := enumValue_of_admits admits
    rw [stepped] at clean
    rcases ih clean.2 with ⟨kept, values_eq, holds, repeats⟩
    rw [through_cons, value_bind, stepped]
    refine ⟨⟨hd.name, flagged bitFlags (s.number hd), hd.doc⟩ :: kept, ?_, ?_, ?_⟩
    · rw [values_eq, extend, List.append_assoc, List.singleton_append]
    · grind [Admits.holds]
    · intro again restated
      cases restated with
      | @cons _ other _ others head tail =>
        have num : s.number other = s.number hd := by
          rw [number, head.value_eq]
          exact admits.enumNumber_eq
        have admitsAgain : s.Admits base bitFlags other.name (s.number other) := by
          rw [num, head.name_eq]
          exact admits
        have same :
            s.extend bitFlags other (s.number other) = s.extend bitFlags hd (s.number hd) := by
          rw [num, extend, extend, head.name_eq, head.doc_eq]
        rw [through_cons, enumValue_of_admits admitsAgain, same]
        exact repeats others tail

end

/-- The parts of an enumeration that is checked without an error. -/
theorem enumType_parts (clean : (enumType ctx sym base vs).Clean)
    (ok : (enumType ctx sym base vs).value = some ty) :
    integralType? base = some ty.underlying ∧
      ty.bitFlags = Attribute.has sym.decl.attributes "bit_flags" ∧ ¬ vs.isEmpty = true ∧
      let run := Report.through
        (enumValue sym.fullName ty.underlying ty.bitFlags) start vs
      run.Clean ∧ run.value.values = ty.values := by
  unfold enumType at clean ok
  split at clean
  · simp at clean
  · next kind integral =>
      simp only [integral] at ok
      split at clean
      · simp at clean
      · next full =>
          rw [if_neg full] at ok
          simp only [clean_bind, clean_pure, and_true, value_bind, value_pure] at clean ok
          grind

theorem isIntegral_of_integralType? (integral : integralType? base = some kind) :
    kind.isIntegral = true := by
  unfold integralType? at integral
  grind

theorem integralType?_scalar (integral : integralType? base = some kind)
    (same : base'.unplaced = .scalar kind default) : integralType? base' = some kind := by
  cases base' <;> cases same
  rw [integralType?, if_pos (isIntegral_of_integralType? integral)]

/-- An enumeration that is stated again with the numbers of its values. -/
theorem enumType_repeats (agrees : ctx.Agrees ctx') (head : RestatedHead sym sym')
    (ok : (enumType ctx sym base vs).value = some ty)
    (sameUnderlying : base'.unplaced = .scalar ty.underlying default)
    (restated : List.Forall₂ (RestatedValue ty.bitFlags) ty.values vs') :
    Repeats (· = ·) (enumType ctx sym base vs) (enumType ctx' sym' base' vs') := by
  intro clean
  rcases enumType_parts clean ok with ⟨integral, flags, full, runClean, run_eq⟩
  rcases enumValues_repeat sym'.fullName runClean with ⟨kept, kept_eq, _, repeats⟩
  have all : kept = ty.values := by
    rw [← run_eq, kept_eq]
    rfl
  have filledAgain : ¬ vs'.isEmpty = true := by
    rcases enumType_of_clean clean with ⟨other, same, keeps⟩
    cases ok.symm.trans same
    have long := keeps.length_eq.trans restated.length_eq
    grind
  refine (?_ : Repeats (· = ·) _ _) clean
  rw [enumType, enumType, integral, integralType?_scalar integral sameUnderlying]
  refine .bind (agrees.attributes head.attributes) fun _ _ => ?_
  simp only
  rw [if_neg full, if_neg filledAgain, head.attributes.has_eq, ← flags]
  have run :
      Repeats (· = ·)
        (Report.through (enumValue sym.fullName ty.underlying ty.bitFlags) start vs)
        (Report.through (enumValue sym'.fullName ty.underlying ty.bitFlags)
          start vs') := by
    intro _
    grind
  refine .bind run fun _ same => ?_
  rw [same]
  exact .pure rfl

theorem holds_of_accepted (clean : (enumType ctx sym base vs).Clean)
    (ok : (enumType ctx sym base vs).value = some ty) :
    ∀ v ∈ ty.values, ty.underlying.holds v.value = true := by
  rcases enumType_parts clean ok with ⟨_, _, _, runClean, run_eq⟩
  rcases enumValues_repeat sym.fullName runClean with ⟨kept, kept_eq, holds, _⟩
  have all : kept = ty.values := by
    rw [← run_eq, kept_eq]
    rfl
  rw [← all]
  exact holds

/-! ## Unions -/

/-- A variant that is stated again. -/
structure RestatedVariant (raw again : Variant) : Prop where
  typeName_eq : again.typeName = raw.typeName
  doc_eq : again.doc = raw.doc

section

variable {ctx ctx' : Context} (agrees : ctx.Agrees ctx')
variable {sym sym' : Symbol} (head : RestatedHead sym sym')
include agrees head

theorem discriminantClash_repeats :
    Repeats (· = ·) (discriminantClash ctx sym) (discriminantClash ctx' sym') := by
  rw [discriminantClash, discriminantClash, head.scope_eq, head.name_eq]
  cases hit : ctx.symbols.symbol? (qualify sym.decl.scope (discriminantName sym.decl.name)) with
  | some other => exact fun clean => absurd clean (not_clean_report _ _)
  | none =>
    rw [agrees.symbol?_eq_none hit]
    exact .pure rfl

theorem unionVariant_repeats (same : RestatedVariant raw restated) (ok : List Catalog.Variant) :
    Repeats (· = ·) (unionVariant ctx sym ok raw) (unionVariant ctx' sym' ok restated) := by
  unfold unionVariant
  rw [same.typeName_eq, same.doc_eq, head.scope_eq]
  refine .bind (agrees.resolved _ _ _ _) fun _ hit => ?_
  rw [← hit]
  cases (ctx.symbols.resolved raw.typeName sym.decl.scope raw.span).value with
  | none => exact .pure rfl
  | some t =>
    simp only [agrees.kind?_eq]
    refine .refused (by simp) id fun _ => ?_
    exact .refused (by simp) id fun _ => .pure rfl

theorem unionType_repeats (restated : List.Forall₂ RestatedVariant alts variantsAgain) :
    Repeats (· = ·) (unionType ctx sym alts) (unionType ctx' sym' variantsAgain) := by
  refine .bind (agrees.attributes head.attributes) fun _ _ => ?_
  refine .bind (discriminantClash_repeats agrees head) fun _ _ => ?_
  refine .refused (by simp) ?_ fun _ => ?_
  · rw [List.isEmpty_iff_length_eq_zero, List.isEmpty_iff_length_eq_zero, restated.length_eq]
    exact id
  refine .refused (by simp) ?_ fun _ => ?_
  · rw [restated.length_eq]
    exact id
  refine .bind (.through restated ?_ rfl) fun _ same => ?_
  · grind [unionVariant_repeats]
  · rw [same]
    exact .pure rfl

end

/-! ## Services -/

/-- A method that is stated again. -/
structure RestatedMethod (raw again : Method) : Prop where
  name_eq : again.name = raw.name
  request_eq : again.requestType = raw.requestType
  response_eq : again.responseType = raw.responseType
  doc_eq : again.doc = raw.doc
  attributes : Attribute.Restates raw.attributes again.attributes

/-- What is read from the value of an attribute follows from what a catalog keeps of it, if names
are read as texts. -/
theorem reading_congr {reading : Option Literal → α} (namesAsTexts :
      ∀ lit,
        reading lit =
          reading (lit.map fun own => ⟨Canonical.literalOf own.value.toAttributeValue, default⟩))
    (same :
      (right.map fun lit => lit.value.toAttributeValue) =
        left.map fun lit => lit.value.toAttributeValue) : reading right = reading left := by
  have raw := congrArg (Option.map fun v => Literal.mk (Canonical.literalOf v) default) same
  rw [Option.map_map, Option.map_map] at raw
  rw [namesAsTexts right, namesAsTexts left]
  exact congrArg reading raw

theorem streamingValue?_congr {left right : Option Literal}
    (same :
      (right.map fun lit => lit.value.toAttributeValue) =
        left.map fun lit => lit.value.toAttributeValue) :
    streamingValue? right = streamingValue? left := by
  refine reading_congr ?_ same
  rintro (_ | ⟨v, _⟩)
  · rfl
  · cases v <;> rfl

theorem streamingMode_repeats (service serviceAgain : String) (same : RestatedMethod raw restated) :
    Repeats (· = ·) (streamingMode service raw) (streamingMode serviceAgain restated) := by
  unfold streamingMode
  cases hit : Attribute.find? raw.attributes "streaming" with
  | none =>
    rw [same.attributes.find?_eq_none hit]
    exact .pure rfl
  | some own =>
    rcases same.attributes.find?_eq_some hit with ⟨other, stands, alike⟩
    grind [streamingValue?_congr, Repeats.ofProblem, Repeats.pure]

section

variable {ctx ctx' : Context} (agrees : ctx.Agrees ctx')
include agrees

theorem messageTable_repeats (ns : List String) (role : MethodRole) (name : String)
    (span span' : Span) :
    Repeats (· = ·) (messageTable ctx ns role name span)
      (messageTable ctx' ns role name span') := by
  refine .bind (agrees.resolved name ns span span') fun _ hit => ?_
  grind [Repeats.pure, Context.Agrees.kind?_eq, Repeats.ofProblem]

variable {sym sym' : Symbol} (head : RestatedHead sym sym')
include head

theorem serviceMethod_repeats (seen : List String) (same : RestatedMethod raw restated) :
    Repeats (· = ·) (serviceMethod ctx sym seen raw) (serviceMethod ctx' sym' seen restated) := by
  unfold serviceMethod
  rw [same.name_eq, same.request_eq, same.response_eq, same.doc_eq, head.scope_eq, same.attributes]
  refine .bind (agrees.attributes same.attributes) fun _ _ => ?_
  refine .refused (by simp) id fun _ => ?_
  refine .bind (messageTable_repeats agrees _ _ _ _ _) fun _ request => ?_
  refine .bind (messageTable_repeats agrees _ _ _ _ _) fun _ response => ?_
  refine .bind (streamingMode_repeats _ _ same) fun _ streaming => ?_
  grind [Repeats.pure]

theorem serviceMethods_repeats (seen : List String)
    (restated : List.Forall₂ RestatedMethod methods methods') :
    Repeats (· = ·) (serviceMethods ctx sym seen methods)
      (serviceMethods ctx' sym' seen methods') := by
  induction restated generalizing seen with
  | nil => exact .pure rfl
  | cons hd _ ih =>
    rw [serviceMethods, serviceMethods, hd.name_eq]
    refine .bind (serviceMethod_repeats agrees head seen hd) fun _ checked => ?_
    grind [Repeats.bind, Repeats.pure]

theorem serviceType_repeats (restated : List.Forall₂ RestatedMethod methods methods') :
    Repeats (· = ·) (serviceType ctx sym methods) (serviceType ctx' sym' methods') := by
  refine .bind (agrees.attributes head.attributes) fun _ _ => ?_
  refine .bind (serviceMethods_repeats agrees head [] restated) fun _ checked => ?_
  rw [checked]
  exact .pure rfl

end

end FlatSchema.Check
