import FlatSchema.Number.Double
import Mathlib.Algebra.Order.Field.Power
import Mathlib.Algebra.Order.Ring.Rat
import Mathlib.Tactic.FieldSimp
import Mathlib.Tactic.GCongr
import Mathlib.Tactic.LinearCombination
import Mathlib.Tactic.Linarith
import Mathlib.Tactic.Positivity

/-!
# Rounding of ratios

The number nearest to a ratio depends on its value alone, and the ratio that a
finite number is rounds to that number.

The exponent at which a ratio is rounded is characterised by its value: it is
the only one, not below the least, at which the significand stays below the
precision and, above the least exponent, fills it.
-/

namespace FlatSchema

/-! ## Quotients -/

/-- Scaling to a common unit keeps the order. -/
theorem lt_iff_of_scaled (leftPositive : 0 < left) (rightPositive : 0 < right)
    (firstThird : fst * right = third * left) (secondFourth : snd * right = fourth * left) :
    fst < snd ↔ third < fourth := by
  rw [← Nat.mul_lt_mul_right rightPositive, firstThird, secondFourth,
    Nat.mul_lt_mul_right leftPositive]

/-- The nearest natural number to a quotient depends on the value of the quotient. -/
theorem roundQuotient_congr (leftPositive : 0 < leftUnit) (rightPositive : 0 < rightUnit)
    (same : left * rightUnit = right * leftUnit) :
    roundQuotient left leftUnit = roundQuotient right rightUnit := by
  have quotients : left / leftUnit = right / rightUnit := by
    rw [← Nat.mul_div_mul_right left leftUnit rightPositive, same, Nat.mul_comm leftUnit,
      Nat.mul_div_mul_right right rightUnit leftPositive]
  have remainders : left % leftUnit * rightUnit = right % rightUnit * leftUnit := by
    grind [Nat.div_add_mod]
  have doubled : 2 * (left % leftUnit) * rightUnit = 2 * (right % rightUnit) * leftUnit := by
    rw [Nat.mul_assoc, remainders, Nat.mul_assoc]
  have units := Nat.mul_comm leftUnit rightUnit
  have below := lt_iff_of_scaled leftPositive rightPositive doubled units
  have above := lt_iff_of_scaled leftPositive rightPositive units doubled
  simp only [roundQuotient, quotients, below, above]

theorem roundQuotient_mul (v : Nat) (pos : 0 < unit) : roundQuotient (v * unit) unit = v := by
  simp_all [roundQuotient]

namespace BinaryFormat

variable {format : BinaryFormat} {num den : Nat} {expo other : Int}

/-! ## Exponents -/

theorem scaledDenominator_pos (pos : 0 < den) (expo : Int) : 0 < scaledDenominator den expo :=
  Nat.mul_pos pos (Nat.two_pow_pos _)

/-- A scaled ratio is the ratio divided by the power of two. -/
theorem scaled_div (num den : Nat) (expo : Int) :
    (scaledNumerator num expo : ℚ) / scaledDenominator den expo = num / den / 2 ^ expo := by
  have powers : (2 : ℚ) ^ expo = 2 ^ expo.toNat / 2 ^ (-expo).toNat := by
    rw [← zpow_natCast, ← zpow_natCast, ← zpow_sub₀ two_ne_zero]
    congr 1
    omega
  simp only [scaledNumerator, scaledDenominator, Nat.pow_eq, Nat.cast_mul, Nat.cast_pow,
    Nat.cast_ofNat, powers]
  field_simp

/-- The significand of a ratio at an exponent stays below a power of two. -/
theorem scaled_lt_iff (pos : 0 < den) (bits : Nat) :
    scaledNumerator num expo / scaledDenominator den expo < 2 ^ bits ↔
      (num / den : ℚ) < 2 ^ (bits + expo) := by
  have unitPositive := scaledDenominator_pos pos expo
  rw [Nat.div_lt_iff_lt_mul unitPositive, zpow_add₀ two_ne_zero, ← div_lt_iff₀ (by positivity),
    ← scaled_div, div_lt_iff₀ (by exact_mod_cast unitPositive)]
  exact_mod_cast Iff.rfl

/-- The exponent at which a ratio is rounded. -/
structure RoundsAt (format : BinaryFormat) (ratio : ℚ) (expo : Int) : Prop where
  least_le : format.leastExponent ≤ expo
  below : ratio < 2 ^ (format.precision + expo)
  fills : expo = format.leastExponent ∨ 2 ^ (format.precision - 1 + expo) ≤ ratio

theorem RoundsAt.le (fst : RoundsAt format ratio expo) (snd : RoundsAt format ratio other) :
    expo ≤ other := by
  rcases fst.fills with isLeast | full
  · rw [isLeast]
    exact snd.least_le
  · have less := lt_of_le_of_lt full snd.below
    rw [zpow_lt_zpow_iff_right₀ one_lt_two] at less
    omega

theorem RoundsAt.unique (fst : RoundsAt format ratio expo) (snd : RoundsAt format ratio other) :
    expo = other :=
  le_antisymm (fst.le snd) (snd.le fst)

/-- The logarithms of a ratio's parts bound the ratio. -/
theorem ratio_bounds (numPos : 0 < num) (denPos : 0 < den) :
    2 ^ ((num.log2 : Int) - den.log2 - 1) ≤ (num / den : ℚ) ∧
      (num / den : ℚ) < 2 ^ ((num.log2 : Int) - den.log2 + 1) := by
  have numeratorLow : (2 : ℚ) ^ (num.log2 : Int) ≤ num := by
    exact_mod_cast Nat.log2_self_le (Nat.ne_of_gt numPos)
  have numeratorHigh : (num : ℚ) < 2 ^ ((num.log2 : Int) + 1) := by
    exact_mod_cast Nat.lt_log2_self
  have denominatorLow : (2 : ℚ) ^ (den.log2 : Int) ≤ den := by
    exact_mod_cast Nat.log2_self_le (Nat.ne_of_gt denPos)
  have denominatorHigh : (den : ℚ) < 2 ^ ((den.log2 : Int) + 1) := by
    exact_mod_cast Nat.lt_log2_self
  have pos : (0 : ℚ) < den := by exact_mod_cast denPos
  constructor
  · rw [le_div_iff₀ pos]
    calc (2 : ℚ) ^ ((num.log2 : Int) - den.log2 - 1) * den
        ≤ 2 ^ ((num.log2 : Int) - den.log2 - 1) * 2 ^ ((den.log2 : Int) + 1) := by
          gcongr
      _ = 2 ^ (num.log2 : Int) := by
          rw [← zpow_add₀ two_ne_zero]
          congr 1
          omega
      _ ≤ num := numeratorLow
  · rw [div_lt_iff₀ pos]
    calc (num : ℚ) < 2 ^ ((num.log2 : Int) + 1) := numeratorHigh
      _ = 2 ^ ((num.log2 : Int) - den.log2 + 1) * 2 ^ (den.log2 : Int) := by
          rw [← zpow_add₀ two_ne_zero]
          congr 1
          omega
      _ ≤ 2 ^ ((num.log2 : Int) - den.log2 + 1) * den := by
          gcongr

theorem roundsAt_exponentOf (numPos : 0 < num) (denPos : 0 < den) :
    RoundsAt format (num / den) (format.exponentOf num den) := by
  rcases ratio_bounds numPos denPos with ⟨low, high⟩
  unfold exponentOf
  simp only [Nat.pow_eq, scaled_lt_iff denPos]
  split
  · next less =>
      refine ⟨le_max_left _ _, less, ?_⟩
      grind
  · next notLess =>
      refine ⟨?_, ?_, ?_⟩
      · exact le_trans (le_max_left _ _) (Int.le_add_one (Int.le_refl _))
      · refine lt_of_lt_of_le high (zpow_le_zpow_right₀ one_le_two ?_)
        omega
      grind

/-! ## Nearest numbers -/

/-- The number nearest to a ratio depends on its value. -/
theorem roundRatio_congr (pos : 0 < den) (otherPositive : 0 < otherDen)
    (same : num * otherDen = otherNum * den) :
    format.roundRatio num den = format.roundRatio otherNum otherDen := by
  by_cases zero : num = 0
  · have otherZero : otherNum = 0 := by
      simp_all [Nat.zero_mul, Nat.ne_of_gt]
    rw [roundRatio, if_pos zero, roundRatio, if_pos otherZero]
  · have otherNonzero : otherNum ≠ 0 := by
      rintro rfl
      simp_all
    have ratios : (num / den : ℚ) = otherNum / otherDen := by
      rw [div_eq_div_iff (by exact_mod_cast Nat.ne_of_gt pos)
        (by exact_mod_cast Nat.ne_of_gt otherPositive)]
      exact_mod_cast same
    have exponents : format.exponentOf num den = format.exponentOf otherNum otherDen := by
      grind [roundsAt_exponentOf, RoundsAt.unique, Nat.pos_of_ne_zero]
    rw [roundRatio, if_neg zero, roundRatio, if_neg otherNonzero]
    simp only [exponents]
    rw [roundQuotient_congr (scaledDenominator_pos pos _) (scaledDenominator_pos otherPositive _)]
    grind [scaledNumerator, scaledDenominator, exponentOf]

theorem unitWeight_pos (format : BinaryFormat) : 0 < format.unitWeight :=
  Nat.two_pow_pos _

/-- A finite number is rounded at its own exponent. -/
theorem roundsAt_exponent (precise : 0 < format.precision) :
    RoundsAt format (format.significand mag * 2 ^ format.exponent mag) (format.exponent mag) := by
  have weight := format.unitWeight_pos
  have power : (format.unitWeight : ℚ) = 2 ^ ((format.precision : Int) - 1) := by
    rw [unitWeight, Nat.pow_eq, Nat.cast_pow, ← zpow_natCast]
    congr 1
    omega
  have small : format.significand mag < 2 * format.unitWeight := by
    unfold significand
    have remainder := Nat.mod_lt mag weight
    split <;> omega
  refine ⟨?_, ?_, ?_⟩
  · rw [exponent]
    omega
  · have cast : (format.significand mag : ℚ) < 2 * format.unitWeight := by exact_mod_cast small
    rw [zpow_add₀ two_ne_zero]
    gcongr
    refine lt_of_lt_of_eq cast ?_
    rw [power, ← zpow_one_add₀ two_ne_zero]
    congr 1
    omega
  · by_cases subnormal : mag < format.unitWeight
    · rw [exponent, Nat.div_eq_of_lt subnormal]
      simp
    · right
      have full : format.unitWeight ≤ format.significand mag := by
        rw [significand, if_neg subnormal]
        exact Nat.le_add_right _ _
      rw [zpow_add₀ two_ne_zero, ← power]
      gcongr

section

variable (format : BinaryFormat) (mag : Nat)

theorem denominator_pos : 0 < format.denominator mag :=
  Nat.two_pow_pos _

/-- The ratio of a finite number: its significand times a power of two. -/
theorem ratio_eq :
    (format.numerator mag / format.denominator mag : ℚ) =
      format.significand mag * 2 ^ format.exponent mag := by
  have scaled := scaled_div (format.significand mag) 1 (-format.exponent mag)
  rw [zpow_neg, div_inv_eq_mul, Nat.cast_one, div_one] at scaled
  rw [← scaled, scaledNumerator, scaledDenominator, Int.neg_neg, Nat.one_mul]
  rfl

/-- At its own exponent a finite number has its significand without a remainder. -/
theorem roundQuotient_own :
    roundQuotient (scaledNumerator (format.numerator mag) (format.exponent mag))
        (scaledDenominator (format.denominator mag) (format.exponent mag)) =
      format.significand mag := by
  have units : scaledNumerator (format.numerator mag) (format.exponent mag) =
      format.significand mag *
        scaledDenominator (format.denominator mag) (format.exponent mag) := by
    simp only [scaledNumerator, scaledDenominator, numerator, denominator]
    rw [Nat.mul_assoc, Nat.mul_comm (Nat.pow 2 (format.exponent mag).toNat)]
  rw [units]
  exact roundQuotient_mul _ (scaledDenominator_pos (format.denominator_pos mag) _)

/-- The exponent and the significand of a finite number make up its bits. -/
theorem bits_eq :
    (format.exponent mag - format.leastExponent).toNat * format.unitWeight +
      format.significand mag = mag := by
  have weight := format.unitWeight_pos
  have all := Nat.div_add_mod mag format.unitWeight
  have place : (format.exponent mag - format.leastExponent).toNat =
      mag / format.unitWeight - 1 := by
    rw [exponent]
    omega
  rw [place, significand]
  split
  · next subnormal => rw [Nat.div_eq_of_lt subnormal, Nat.zero_sub, Nat.zero_mul, Nat.zero_add]
  · next normal =>
      have pos := Nat.div_pos (Nat.le_of_not_lt normal) weight
      have one : format.unitWeight ≤ format.unitWeight * (mag / format.unitWeight) :=
        Nat.le_mul_of_pos_right _ pos
      rw [Nat.sub_mul, Nat.mul_comm]
      omega

end

theorem roundRatio_self (precise : 0 < format.precision) (finite : mag < format.infinity) :
    format.roundRatio (format.numerator mag) (format.denominator mag) = mag := by
  have weight := format.unitWeight_pos
  by_cases zero : mag = 0
  · have nothing : format.numerator mag = 0 := by
      rw [numerator, significand, if_pos (by rw [zero]; exact weight), zero, Nat.zero_mul]
    rw [nothing, roundRatio, if_pos rfl, zero]
  · have significandPositive : 0 < format.significand mag := by
      unfold significand
      split <;> omega
    have numPos : 0 < format.numerator mag := Nat.mul_pos significandPositive (Nat.two_pow_pos _)
    have rounds : RoundsAt format _ (format.exponentOf (format.numerator mag)
        (format.denominator mag)) :=
      roundsAt_exponentOf numPos (format.denominator_pos mag)
    rw [ratio_eq] at rounds
    rw [roundRatio, if_neg (Nat.ne_of_gt numPos)]
    simp only [rounds.unique (roundsAt_exponent precise), roundQuotient_own, bits_eq]
    exact Nat.min_eq_right (Nat.le_of_lt finite)

end BinaryFormat

end FlatSchema
