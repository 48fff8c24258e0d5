import FlatSchema.Proofs.RoundTrip
import FlatSchema.Proofs.RestatedCatalog

/-!
# Defaults that survive storage

The default of an accepted field is of the sort of its kind and, where the kind
is integral, in its range.  Stored and read back it is the same value, except
that single precision rounds: only a number that single precision holds
survives there.
-/

namespace FlatSchema

open BinaryFormat Double ScalarValue SymbolTable
open DefaultValue (int)

variable {c : Catalog}

/-! ## Integers as numbers -/

namespace Double

/-- A natural number within the precision is a finite number. -/
theorem exists_magnitude (small : v < 2 ^ 53) :
    ∃ mag < double.infinity, double.numerator mag = v * double.denominator mag := by
  by_cases zero : v = 0
  · refine ⟨0, by decide +kernel, ?_⟩
    rw [zero, Nat.zero_mul]
    rfl
  · have low := Nat.log2_self_le zero
    have high : v < 2 ^ (v.log2 + 1) := Nat.lt_log2_self
    have short : v.log2 ≤ 52 := Nat.le_of_lt_succ ((Nat.log2_lt zero).mpr small)
    generalize v.log2 = place at low high short
    -- The leading bit is moved to the top of the significand.
    have unit : 2 ^ place * 2 ^ (52 - place) = 4503599627370496 := by
      rw [← Nat.pow_add, show place + (52 - place) = 52 by omega]
    have least : 4503599627370496 ≤ v * 2 ^ (52 - place) := by
      rw [← unit]
      exact Nat.mul_le_mul_right _ low
    have greatest : v * 2 ^ (52 - place) < 2 * 4503599627370496 := by
      rw [← unit, ← Nat.mul_assoc, ← Nat.pow_succ']
      exact Nat.mul_lt_mul_of_pos_right high (Nat.two_pow_pos _)
    have weight : double.unitWeight = 4503599627370496 := rfl
    have lowest : double.leastExponent = -1074 := rfl
    have largest : double.infinity = 2047 * 4503599627370496 := rfl
    refine ⟨(place + 1022) * 4503599627370496 + v * 2 ^ (52 - place), by omega, ?_⟩
    generalize significand_eq : v * 2 ^ (52 - place) = significand at least greatest
    have expo :
        double.exponent ((place + 1022) * 4503599627370496 + significand) = (place : Int) - 52 := by
      rw [BinaryFormat.exponent, weight]
      omega
    rw [BinaryFormat.numerator, BinaryFormat.denominator, expo,
      show ((place : Int) - 52).toNat = 0 by omega,
      show (-((place : Int) - 52)).toNat = 52 - place by omega, BinaryFormat.significand, weight,
      if_neg (by omega), Nat.pow_eq, Nat.pow_eq]
    omega

/-- An integer within the precision is exact as a number. -/
theorem truncate?_ofInt (small : v.natAbs < 2 ^ 53) : (ofInt v).truncate? = some v := by
  rcases exists_magnitude small with ⟨mag, finite, exactly⟩
  have rounds : double.roundRatio v.natAbs 1 = mag := by
    refine Eq.trans ?_ (roundRatio_self (by decide) finite)
    refine roundRatio_congr Nat.one_pos (denominator_pos _ _) ?_
    rw [exactly, Nat.mul_one]
  have inside := Nat.lt_trans finite infinity_lt_signWeight
  have pos := denominator_pos .double mag
  rw [truncate?, isFinite, numerator, denominator, ofInt, ofRatio, rounds,
    magnitude_ofMagnitude inside, isNegative_ofMagnitude inside, exactly,
    Nat.mul_div_cancel _ pos]
  grind

/-- A number that single precision holds. -/
def IsSingle (num : Double) : Prop :=
  (number num).same (.number (ofSingleBits num.toSingleBits)) = true

end Double

namespace ScalarKind

variable {kind : ScalarKind} {v : Int}

/-- An integer in the range of a kind is stored as it is. -/
theorem wrap_of_holds (holds : kind.holds v = true) : kind.wrap v = v := by
  have range : Nat.pow 256 kind.size = Nat.pow 2 (8 * kind.size) := by cases kind <;> rfl
  have half : Nat.pow 2 (8 * kind.size) = 2 * Nat.pow 2 (8 * kind.size - 1) := by
    cases kind <;> rfl
  rw [ScalarKind.holds, Bool.and_eq_true, decide_eq_true_eq, decide_eq_true_eq] at holds
  unfold least greatest at holds
  unfold wrap
  cases unsigned : kind.isUnsigned with
  | true =>
    simp only [unsigned, if_true] at holds ⊢
    exact Int.emod_eq_of_lt holds.1 (by omega)
  | false =>
    simp only [unsigned, Bool.false_eq_true, if_false] at holds ⊢
    exact Int.bmod_eq_of_le (by omega) (by omega)

theorem holds_zero (kind : ScalarKind) : kind.holds 0 = true := by
  cases kind <;> rfl

/-- The integers of the narrow kinds are exact as numbers. -/
theorem natAbs_lt_of_holds (integral : kind.isIntegral = true) (narrow : kind.isWide = false)
    (holds : kind.holds v = true) : v.natAbs < 2 ^ 53 := by
  have bound : Nat.pow 2 (8 * kind.size) ≤ 4294967296 := by
    cases kind with
    | bool | float32 | float64 => cases integral
    | int64 | uint64 => cases narrow
    | _ => decide
  have half : Nat.pow 2 (8 * kind.size - 1) ≤ Nat.pow 2 (8 * kind.size) :=
    Nat.pow_le_pow_right (by decide) (Nat.sub_le _ _)
  rw [ScalarKind.holds, Bool.and_eq_true, decide_eq_true_eq, decide_eq_true_eq] at holds
  unfold least greatest at holds
  grind

end ScalarKind

/-! ## Defaults of a kind -/

namespace DefaultValue

variable {kind : ScalarKind} {fallback : DefaultValue}

/-- A default is of the sort of a kind and, where the kind is integral, in its range. -/
def Suits (kind : ScalarKind) : DefaultValue → Prop
  | .int v => kind.isIntegral = true ∧ kind.holds v = true
  | .float _ => kind = .float32 ∨ kind = .float64
  | .bool _ => kind = .bool
  | .absent => False

theorem Suits.exists_encode (suits : fallback.Suits kind) :
    ∃ bs, kind.encode? (fallback.toScalar kind) = some bs := by
  cases fallback with
  | int v =>
    rcases suits with ⟨integral, _⟩
    cases kind with
    | bool | float32 | float64 => cases integral
    | _ => exact ⟨_, rfl⟩
  | float v => rcases suits with rfl | rfl <;> exact ⟨_, rfl⟩
  | bool v =>
    cases suits
    exact ⟨_, rfl⟩
  | absent => exact suits.elim

theorem convert_int (integral : kind.isIntegral = true) (holds : kind.holds v = true) :
    kind.convert ((int v).toScalar kind) = (int v).toScalar kind := by
  have wrapped := ScalarKind.wrap_of_holds holds
  cases wide : kind.isWide with
  | true =>
    cases kind with
    | int64 | uint64 => exact congrArg ScalarValue.wide wrapped
    | _ => cases wide
  | false =>
    have exactly := truncate?_ofInt (ScalarKind.natAbs_lt_of_holds integral wide holds)
    cases kind with
    | bool | float32 | float64 => cases integral
    | int64 | uint64 => cases wide
    | int8 | uint8 | int16 | uint16 | int32 | uint32 =>
      show number (ofInt (ScalarKind.wrap _ ((ofInt v).truncate?.getD 0))) = _
      rw [exactly, Option.getD_some, wrapped]
      rfl

/-- A default reads back as it is, unless single precision has to round it. -/
theorem Suits.survives_iff (suits : fallback.Suits kind) :
    (fallback.toScalar kind).same (kind.convert (fallback.toScalar kind)) = true ↔
      ∀ num, kind = .float32 → fallback = .float num → num.IsSingle := by
  cases fallback with
  | int v =>
    rw [convert_int suits.1 suits.2, same_self]
    simp
  | float v =>
    rcases suits with rfl | rfl
    · constructor
      · rintro same num _ ⟨⟩
        exact same
      · intro holds
        exact holds v rfl rfl
    · have kept : (number v).same (.number (if v.isNaN then nan else v)) = true := by
        split
        · next isNaN =>
            have none : nan.isNaN = true := by decide +kernel
            simp [same, isNaN, none]
        · exact same_self _
      constructor
      · rintro _ num ⟨⟩
      · exact fun _ => kept
  | bool v =>
    cases suits
    have kept :
        ∀ truth, (ScalarValue.flag truth).same (ScalarKind.bool.convert (.flag truth)) = true := by
      decide +kernel
    constructor
    · rintro _ num ⟨⟩
    · exact fun _ => kept v
  | absent => exact suits.elim

end DefaultValue

namespace Check

theorem scalarDefault_suits (hit : scalarDefault kind lit = .ok fallback) :
    fallback.Suits kind := by
  unfold scalarDefault at hit
  split at hit
  · split at hit
    · cases hit
      rfl
    · cases hit
      rfl
    · split at hit
      · cases hit
        rfl
      · cases hit
    · cases hit
  · split at hit <;> cases hit <;> exact .inl rfl
  · split at hit <;> cases hit <;> exact .inr rfl
  · next notBool notSingle notDouble =>
      have integral : kind.isIntegral = true := by
        cases kind with
        | bool => exact (notBool rfl).elim
        | float32 => exact (notSingle rfl).elim
        | float64 => exact (notDouble rfl).elim
        | _ => rfl
      split at hit
      · cases hit
        exact ⟨integral, kind.holds_zero⟩
      · grind [ScalarKind.holds, ScalarKind.isIntegral, DefaultValue.Suits]
      · cases hit

theorem enumDefault_suits (integral : enum.underlying.isIntegral = true)
    (holds : ∀ v ∈ enum.values, enum.underlying.holds v.value = true)
    (hit : enumDefault name enum lit = .ok fallback) : fallback.Suits enum.underlying := by
  rcases enumDefault_isNumber holds hit with ⟨num, rfl, _, rfl | fits⟩
  · exact ⟨integral, enum.underlying.holds_zero⟩
  · exact ⟨integral, fits⟩

/-- The underlying kind of an accepted enumeration is integral. -/
theorem isIntegral_of_lookup (reg : ctx.symbols.Regular)
    (clean : (enumTypes ctx).Clean) {id : Nat} (hit : (enumTypes ctx).value.lookup id = some enum) :
    enum.underlying.isIntegral = true := by
  rcases enumType_of_lookup reg clean hit with ⟨_, _, _, _, _, own, ok⟩
  exact isIntegral_of_integralType? (enumType_parts own ok).1

end Check

namespace Catalog

/-- Every scalar field of a catalog has a default that suits it. -/
def SuitsDefaults (c : Catalog) : Prop :=
  ∀ id t, c.body? id = some (.table t) → ∀ f ∈ t.fields,
    ∀ kind, c.scalar? f.type = some kind → f.default.Suits kind

/-- A named type that is stored as a scalar is an enumeration. -/
theorem body_of_scalar? {id : Nat} (stored : c.scalar? (.named id) = some kind) :
    ∃ enum, c.body? id = some (.enum enum) ∧ enum.underlying = kind := by
  grind [scalar?, body?]

/-- An enumeration of the catalog has been accepted. -/
theorem Keeps.lookup_of_enum (keeps : Keeps ctx c) {id : Nat}
    (body : c.body? id = some (.enum enum)) :
    (Check.enumTypes ctx).value.lookup id = some enum := by
  rcases keeps.symbol_of_body body with ⟨sym, stands, kept⟩
  generalize sym.decl.body = raw at kept
  cases kept with
  | enum ok _ =>
    rw [← keeps.regular.id_eq stands]
    exact ok

theorem suitsDefaults_of_accepted
    (ok : (ofSymbols schemas (ofSchemas schemas).value e old).value = .accepted c) :
    c.SuitsDefaults := by
  have keeps := keeps_of_accepted ok
  have clean := (Check.all_of_clean (eq_of_accepted ok).1).2.1
  have sound := Check.soundEnums_of_clean keeps.regular clean
  intro id t body f mem kind stored
  rcases keeps.symbol_of_body body with ⟨sym, stands, kept⟩
  generalize sym.decl.body = raw at kept
  cases kept with
  | table kept =>
    rcases exists_mem_of_forall₂ kept.kept mem with ⟨own, _, keepsField⟩
    have hit := keepsField.default_eq
    cases type_eq : f.type with
    | scalar own =>
      rw [type_eq] at stored hit
      cases stored
      exact Check.scalarDefault_suits (Option.some.inj hit)
    | string | vector _ =>
      rw [type_eq] at stored
      cases stored
    | named target =>
      rw [type_eq] at stored hit
      rcases body_of_scalar? stored with ⟨enum, enumBody, rfl⟩
      have known := keeps.lookup_of_enum enumBody
      simp only [Check.defaultOf?, known] at hit
      exact Check.enumDefault_suits (Check.isIntegral_of_lookup keeps.regular clean known)
        (sound target enum known) (Option.some.inj hit)

/-- An accepted catalog whose vtables can index its slots leaves nothing to go wrong but what lies
in a record. -/
theorem manageable_of_accepted
    (ok : (ofSymbols schemas (ofSchemas schemas).value e old).value = .accepted c)
    (short : ∀ id t, c.body? id = some (.table t) → t.slotCount ≤ 32765) : c.Manageable where
  short := short
  stores := by
    intro id t body f mem kind stored
    exact (suitsDefaults_of_accepted ok id t body f mem kind stored).exists_encode
  optional := by
    intro id t body f mem required
    have keeps := keeps_of_accepted ok
    rcases keeps.symbol_of_body body with ⟨sym, stands, kept⟩
    generalize sym.decl.body = raw at kept
    cases kept with
    | table kept =>
      rcases exists_mem_of_forall₂ kept.kept mem with ⟨own, _, keepsField⟩
      rcases keepsField.optional required with ⟨notScalar, notEnum⟩
      cases stored : c.scalar? f.type with
      | none => rfl
      | some kind =>
        cases type_eq : f.type with
        | scalar own => exact (notScalar own type_eq).elim
        | string | vector _ =>
          rw [type_eq] at stored
          cases stored
        | named target =>
          rw [type_eq] at stored notEnum
          rcases body_of_scalar? stored with ⟨enum, enumBody, _⟩
          exact (Bool.eq_false_iff.mp notEnum (decide_eq_true (keeps.kind_of_body enumBody))).elim
  identified := by
    intro text given
    rcases eq_of_accepted ok with ⟨clean, _, parts⟩
    rw [parts] at given
    simp only [Check.all, Report.clean_bind] at clean
    have valid := (Check.holds_of_clean clean.2.2.2.2.2.2.1).identifiesFile text given
    simp only [Check.isFileIdentifier, Bool.and_eq_true, decide_eq_true_eq] at valid
    exact valid.1

end Catalog

end FlatSchema
