import FlatSchema.Number.Decimal
import FlatSchema.Proofs.Rounding
import Mathlib.Tactic.Ring

/-!
# Shortest numerals read back

A decimal numeral denotes the number nearest to its value, however many zeros
end its digits.  The shortest numeral of a finite number reads back as that
number: a candidate is kept only if it does, and behind all candidates stands
the exact expansion of the number.
-/

namespace FlatSchema

open BinaryFormat Decimal

variable {numeral : Decimal}

namespace Decimal

/-! ## Zeros at the end -/

theorem digitCount_mul_ten {digits : Nat} (pos : 0 < digits) :
    digitCount (digits * 10) = digitCount digits + 1 := by
  have put := Nat.toDigits_append_toDigits (b := 10) (d := 0) (by decide) pos (by decide)
  grind [digitCount]

/-- A zero at the end of the digits goes into the exponent. -/
theorem magnitude_mul_ten {digits : Nat} (pos : 0 < digits) (expo : Int) :
    magnitude ⟨digits * 10, expo⟩ = magnitude ⟨digits, expo + 1⟩ := by
  have leading : expo + (digitCount (digits * 10) : Nat) =
      expo + 1 + (digitCount digits : Nat) := by
    rw [digitCount_mul_ten pos]
    omega
  have rounded : double.roundRatio (numerator ⟨digits * 10, expo⟩)
        (denominator ⟨digits * 10, expo⟩) =
      double.roundRatio (numerator ⟨digits, expo + 1⟩) (denominator ⟨digits, expo + 1⟩) := by
    apply roundRatio_congr (Nat.pow_pos (by decide)) (Nat.pow_pos (by decide))
    simp only [numerator, Nat.pow_eq]
    rcases Int.lt_or_le expo 0 with negative | natural
    · have places : (-expo).toNat = (-(expo + 1)).toNat + 1 := by omega
      grind
    · have zeros : (expo + 1).toNat = expo.toNat + 1 := by omega
      grind
  simp [magnitude, leading, rounded, Nat.ne_of_gt pos]

theorem magnitude_mul_pow {digits : Nat} (pos : 0 < digits) (expo : Int) (zeros : Nat) :
    magnitude ⟨digits * 10 ^ zeros, expo⟩ = magnitude ⟨digits, expo + zeros⟩ := by
  induction zeros generalizing expo with
  | zero => simp
  | succ zeros ih =>
    rw [Nat.pow_succ, ← Nat.mul_assoc,
      magnitude_mul_ten (Nat.mul_pos pos (Nat.pow_pos (by decide))), ih]
    congr 2
    omega

/-- Dropping zeros keeps the number and some digit. -/
theorem trim_spec (pos : 0 < numeral.digits) :
    numeral.trim.magnitude = numeral.magnitude ∧ 0 < numeral.trim.digits := by
  fun_induction trim numeral with
  | case1 numeral zeros ih =>
    have shorter : 0 < numeral.digits / 10 := by omega
    rcases ih shorter with ⟨same, kept⟩
    refine ⟨?_, kept⟩
    rw [same, ← magnitude_mul_ten shorter, Nat.div_mul_cancel (Nat.dvd_of_mod_eq_zero zeros.1)]
  | case2 numeral _ => exact ⟨rfl, pos⟩

/-! ## Exact expansions -/

section

variable {mag : Nat}

/-- Beyond its point a finite number has no more binary places than the smallest one. -/
theorem log2_denominator_le (mag : Nat) : (double.denominator mag).log2 ≤ 1074 := by
  have least : double.leastExponent = -1074 := by decide
  rw [BinaryFormat.denominator, Nat.pow_eq, Nat.log2_two_pow, BinaryFormat.exponent]
  omega

theorem two_pow_log2_denominator (mag : Nat) :
    2 ^ (double.denominator mag).log2 = double.denominator mag := by
  rw [BinaryFormat.denominator, Nat.pow_eq, Nat.log2_two_pow]

/-- A finite number has fewer than four hundred decimal places before its point. -/
theorem numerator_lt (finite : mag < double.infinity) : double.numerator mag < 10 ^ 400 := by
  have least : double.leastExponent = -1074 := by decide
  have weight : double.unitWeight = 2 ^ 52 := rfl
  have bound : double.infinity = 2047 * 2 ^ 52 := rfl
  have place : (double.exponent mag).toNat ≤ 971 := by
    rw [BinaryFormat.exponent, weight]
    omega
  have small : double.significand mag < 2 ^ 53 := by
    rw [significand, weight]
    split <;> omega
  calc double.numerator mag
      < 2 ^ 53 * 2 ^ (double.exponent mag).toNat :=
        Nat.mul_lt_mul_of_pos_right small (Nat.two_pow_pos _)
    _ ≤ 2 ^ 53 * 2 ^ 971 := Nat.mul_le_mul_left _ (Nat.pow_le_pow_right (by decide) place)
    _ < 10 ^ 400 := by decide +kernel

theorem numerator_pos (pos : 0 < mag) : 0 < double.numerator mag := by
  apply Nat.mul_pos ?_ (Nat.two_pow_pos _)
  grind [significand, double]

/-- The first digit of an exact expansion does not stand far beyond the point. -/
theorem places_le_exact (pos : 0 < num) (few : 2 ^ places < 10 ^ (margin + 1)) :
    places ≤ digitCount (num * 5 ^ places) + margin := by
  by_contra short
  have counted : digitCount (num * 5 ^ places) ≤ places - (margin + 1) := by omega
  have some : 0 < digitCount (num * 5 ^ places) := Nat.length_toDigits_pos
  rw [digitCount, Nat.length_toDigits_le_iff (by decide) (by omega)] at counted
  have less := calc num * 5 ^ places * 10 ^ (margin + 1)
      < 10 ^ (places - (margin + 1)) * 10 ^ (margin + 1) :=
        Nat.mul_lt_mul_of_pos_right counted (Nat.pow_pos (by decide))
    _ = 10 ^ places := by
        rw [← Nat.pow_add]
        congr 1
        omega
    _ = 5 ^ places * 2 ^ places := Nat.mul_pow 5 2 places
    _ < 5 ^ places * 10 ^ (margin + 1) := Nat.mul_lt_mul_of_pos_left few (Nat.pow_pos (by decide))
    _ ≤ num * 5 ^ places * 10 ^ (margin + 1) :=
        Nat.mul_le_mul_right _ (Nat.le_mul_of_pos_left _ pos)
  exact Nat.lt_irrefl _ less

theorem digitCount_exact_le (small : num < 10 ^ margin)
    (some : 0 < margin) (places : Nat) : digitCount (num * 5 ^ places) ≤ margin + places := by
  rw [digitCount, Nat.length_toDigits_le_iff (by decide) (by omega), Nat.pow_add]
  apply Nat.mul_lt_mul_of_lt_of_le small
  · exact Nat.pow_le_pow_left (by decide) places
  · exact Nat.pow_pos (by decide)

/-- The exact expansion of a finite number reads back as it. -/
theorem magnitude_exact (pos : 0 < mag) (finite : mag < double.infinity) :
    (exact (double.numerator mag) (double.denominator mag)).magnitude = mag ∧
      0 < (exact (double.numerator mag) (double.denominator mag)).digits := by
  have some := numerator_pos pos
  have all := two_pow_log2_denominator mag
  have few : 2 ^ (double.denominator mag).log2 < 10 ^ (400 + 1) :=
    Nat.lt_of_le_of_lt (Nat.pow_le_pow_right (by decide) (log2_denominator_le mag))
      (by decide +kernel)
  have low := places_le_exact some few
  have high := digitCount_exact_le (numerator_lt finite) (by decide) (double.denominator mag).log2
  rw [exact]
  generalize (double.denominator mag).log2 = places at all low high ⊢
  have digitsPositive : 0 < double.numerator mag * Nat.pow 5 places :=
    Nat.mul_pos some (Nat.pow_pos (by decide))
  refine ⟨?_, digitsPositive⟩
  have rounded : double.roundRatio (numerator ⟨double.numerator mag * Nat.pow 5 places, -places⟩)
      (denominator ⟨double.numerator mag * Nat.pow 5 places, -places⟩) = mag := by
    refine Eq.trans ?_ (roundRatio_self (by decide) finite)
    apply roundRatio_congr (Nat.pow_pos (by decide)) (denominator_pos _ _)
    simp only [numerator, Nat.pow_eq, Int.neg_neg, Int.toNat_natCast,
      Int.toNat_neg_natCast, Nat.pow_zero, Nat.mul_one]
    rw [← all, Nat.mul_assoc, ← Nat.mul_pow]
  simp only [magnitude]
  rw [if_neg (by simp only [Nat.pow_eq] at *; omega), if_neg (by simp only [Nat.pow_eq]; omega),
    rounded]

/-! ## The search -/

theorem magnitude_of_searchDigits
    (hit : searchDigits mag num den place remaining n = some numeral) :
    numeral.magnitude = mag := by
  induction remaining generalizing n with
  | zero => cases hit
  | succ remaining ih =>
    grind [magnitude, searchDigits]

theorem digits_pos_of_magnitude (pos : 0 < numeral.magnitude) : 0 < numeral.digits := by
  grind [magnitude]

/-- The shortest numeral of a positive finite number reads back as it. -/
theorem shortest_spec (pos : 0 < mag) (finite : mag < double.infinity) :
    (shortest mag).magnitude = mag ∧ 0 < (shortest mag).digits := by
  unfold shortest
  simp only
  split
  · grind [magnitude_of_searchDigits, trim_spec, digits_pos_of_magnitude]
  · grind [magnitude_exact, trim_spec]

end

end Decimal

end FlatSchema
