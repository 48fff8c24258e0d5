import FlatSchema.Proofs.ShortestDecimal
import FlatSchema.Proofs.Spelling
import FlatSchema.Schema.Printer

/-!
# Numerals read back

A numeral is digits, an optional fraction and an optional exponent, and it
spells the token of its value in front of what ends a numeral.  The text of a
finite number is a numeral, up to its sign, and the value of that numeral is
the number: writing it loses nothing.
-/

namespace FlatSchema

variable {num : Double}

namespace Lexer

/-! ## Reading a numeral -/

/-- The three parts of a numeral as it is written. -/
structure IsNumeral (whole fraction exponent : List Char) : Prop where
  nonempty : whole ≠ []
  whole : ∀ digit ∈ whole, digit.isDigit
  fraction : fraction = [] ∨ ∃ places, fraction = '.' :: places ∧ ∀ digit ∈ places, digit.isDigit
  exponent : exponent = [] ∨ ∃ sign digits,
    exponent = 'e' :: sign :: digits ∧ (sign = '+' ∨ sign = '-') ∧ digits ≠ [] ∧
      ∀ digit ∈ digits, digit.isDigit

/-- What a numeral is: an integer if it is only digits. -/
def numeralKind (all fraction expo : List Char) : TokenClass :=
  if fraction.isEmpty && expo.isEmpty then .int (decimalNumber all)
  else .float (floatValue all fraction expo)

/-- What is no digit. -/
def notDigit (char : Char) : Bool :=
  !char.isDigit

theorem isDigit_of_endsNumeral (ends : endsNumeral char) : notDigit char := by
  simp only [endsNumeral, isNamePart, Char.isAlphanum, Bool.and_eq_true, Bool.not_eq_true',
    Bool.or_eq_false_iff] at ends
  rw [notDigit, ends.1.1.2]
  rfl

theorem ne_of_endsNumeral (ends : endsNumeral char) (continues : endsNumeral other = false) :
    char ≠ other := by
  grind

theorem meets_notDigit (ends : Meets endsNumeral rest) : Meets notDigit rest :=
  fun char isHead => isDigit_of_endsNumeral (ends char isHead)

theorem scan_digit (isDigit : digit.isDigit) (tail : List Char) :
    scan digit tail = scanNumber (digit :: tail) := by
  have noBlank := isBlank_eq_false isDigit (by decide)
  have noSlash : digit ≠ '/' := by rintro rfl; exact absurd isDigit (by decide)
  have noQuote : digit ≠ '"' := by rintro rfl; exact absurd isDigit (by decide)
  have noPoint : digit ≠ '.' := by rintro rfl; exact absurd isDigit (by decide)
  have starts := (startsNumber_cons noPoint tail).trans isDigit
  simp [scan, noBlank, startsWith2_of_ne noSlash, noQuote, starts]

section

variable {all fraction expo rest : List Char}

section

variable (numeral : IsNumeral all fraction expo)
include numeral

variable (ends : Meets endsNumeral rest)
include ends

theorem IsNumeral.meets_exponent : Meets notDigit (expo ++ rest) := by
  rcases numeral.exponent with rfl | ⟨sign, digits, rfl, _⟩
  · exact meets_notDigit ends
  · exact .cons rfl _

theorem IsNumeral.meets_fraction : Meets notDigit (fraction ++ (expo ++ rest)) := by
  rcases numeral.fraction with rfl | ⟨places, rfl, _⟩
  · exact numeral.meets_exponent ends
  · exact .cons rfl _

theorem IsNumeral.fractionPart_eq : fractionPart (fraction ++ (expo ++ rest)) = fraction := by
  have stops := numeral.meets_exponent ends
  rcases numeral.fraction with rfl | ⟨places, rfl, digits⟩
  · have noPoint : ∀ post, expo ++ rest ≠ '.' :: post := by
      rcases numeral.exponent with rfl | ⟨sign, digits, rfl, _⟩
      · rintro post rfl
        exact absurd (ends '.' rfl) (by decide)
      grind
    rw [fractionPart]
    exact noPoint
  · rw [List.cons_append, fractionPart, (takeWhile_of_meets digits stops).1]

theorem IsNumeral.exponentPart_eq : exponentPart (expo ++ rest) = expo := by
  rcases numeral.exponent with rfl | ⟨sign, digits, rfl, isSign, nonempty, areDigits⟩
  · cases rest with
    | nil => rfl
    | cons next rest =>
      have lower : next ≠ 'e' := ne_of_endsNumeral (ends next rfl) rfl
      have upper : next ≠ 'E' := ne_of_endsNumeral (ends next rfl) rfl
      simp [exponentPart, lower, upper]
  · have taken := (takeWhile_of_meets areDigits (meets_notDigit ends)).1
    have signed : signPart (sign :: (digits ++ rest)) = [sign] := by
      rcases isSign with rfl | rfl <;> rfl
    simp [exponentPart, signed, taken, nonempty]

end

/-- What does not mark a numeral as hexadecimal. -/
def noHexMark (char : Char) : Bool :=
  char ≠ 'x' && char ≠ 'X'

theorem noHexMark_of_isDigit (digit : char.isDigit) : noHexMark char := by
  unfold noHexMark
  rw [Bool.and_eq_true, decide_eq_true_iff, decide_eq_true_iff]
  refine ⟨?_, ?_⟩ <;> rintro rfl <;> exact absurd digit (by decide)

theorem IsNumeral.meets_noHexMark (numeral : IsNumeral (fst :: tail) fraction expo)
    (ends : Meets endsNumeral rest) : Meets noHexMark (tail ++ (fraction ++ (expo ++ rest))) := by
  cases tail with
  | cons snd tail => exact .cons (noHexMark_of_isDigit (numeral.whole snd (by simp))) _
  | nil =>
    rcases numeral.fraction with rfl | ⟨places, rfl, _⟩
    · rcases numeral.exponent with rfl | ⟨sign, digits, rfl, _⟩
      · intro next isHead
        have lower : next ≠ 'x' := ne_of_endsNumeral (ends next isHead) rfl
        have upper : next ≠ 'X' := ne_of_endsNumeral (ends next isHead) rfl
        simp [noHexMark, lower, upper]
      · exact .cons rfl _
    · exact .cons rfl _

/-- A numeral written in decimal is not read in hexadecimal. -/
theorem IsNumeral.hexDigitsOf_eq (numeral : IsNumeral all fraction expo)
    (ends : Meets endsNumeral rest) : hexDigitsOf (all ++ (fraction ++ (expo ++ rest))) = [] := by
  cases all with
  | nil => exact absurd rfl numeral.nonempty
  | cons hd tail =>
    have marks := numeral.meets_noHexMark ends
    rw [List.cons_append]
    unfold hexDigitsOf
    split
    · next next post same =>
        rw [(List.cons.inj same).2] at marks
        have noMark := marks next rfl
        simp only [noHexMark, Bool.and_eq_true, decide_eq_true_eq] at noMark
        simp [noMark]
    · rfl

theorem IsNumeral.scanNumber_eq (numeral : IsNumeral all fraction expo)
    (ends : Meets endsNumeral rest) :
    scanNumber (all ++ (fraction ++ (expo ++ rest))) =
      .plain (numeralKind all fraction expo) (all ++ fraction ++ expo) rest := by
  have stops := numeral.meets_fraction ends
  rcases takeWhile_of_meets numeral.whole stops with ⟨taken, left⟩
  have ended :
      endNumber (numeralKind all fraction expo) (all ++ fraction ++ expo) rest =
        .plain (numeralKind all fraction expo) (all ++ fraction ++ expo) rest := by
    cases rest with
    | nil => rfl
    | cons next rest =>
      have ends := ends next rfl
      simp only [endsNumeral, Bool.and_eq_true, Bool.not_eq_true'] at ends
      simp [endNumber, ends.1]
  simp only [scanNumber, numeral.hexDigitsOf_eq ends, List.isEmpty_nil, if_true, scanDecimal,
    taken, left, numeral.fractionPart_eq ends, List.drop_left, numeral.exponentPart_eq ends]
  exact ended

theorem Spells.numeral (numeral : IsNumeral all fraction expo) :
    Spells (all ++ fraction ++ expo)
      [(numeralKind all fraction expo, String.ofList (all ++ fraction ++ expo))]
      endsNumeral := by
  intro rest more ends scans
  have read := numeral.scanNumber_eq ends
  cases all with
  | nil => exact absurd rfl numeral.nonempty
  | cons hd tail =>
    have digit := numeral.whole hd List.mem_cons_self
    rw [List.append_assoc, List.append_assoc]
    have hit := scan_digit digit _ |>.trans read
    exact .token hit scans

end

/-! ## The value of digits -/

theorem decimalNumber_eq (digits : List Char) :
    decimalNumber digits = Nat.ofDigitChars 10 digits 0 := by
  grind [decimalNumber, Nat.mul_comm, Nat.ofDigitChars_eq_foldl]

theorem decimalNumber_toDigits (v : Nat) : decimalNumber (Nat.toDigits 10 v) = v := by
  rw [decimalNumber_eq, Nat.ofDigitChars_ten_toDigits]

theorem decimalNumber_zeros_append (zeros : Nat) (digits : List Char) :
    decimalNumber (List.replicate zeros '0' ++ digits) = decimalNumber digits := by
  rw [decimalNumber_eq, decimalNumber_eq, Nat.ofDigitChars_append, Nat.ofDigitChars_replicate_zero,
    Nat.mul_zero]

theorem decimalNumber_append_zeros (digits : List Char) (zeros : Nat) :
    decimalNumber (digits ++ List.replicate zeros '0') = decimalNumber digits * 10 ^ zeros := by
  rw [decimalNumber_eq, decimalNumber_eq, Nat.ofDigitChars_append, Nat.ofDigitChars_replicate_zero,
    Nat.mul_comm]

/-- The digits of a natural number are digits. -/
theorem toDigits_digits (v : Nat) : ∀ digit ∈ Nat.toDigits 10 v, digit.isDigit :=
  fun _ mem => Nat.isDigit_of_mem_toDigits (by decide) (by decide) mem

theorem isNumeral_toDigits (v : Nat) : IsNumeral (Nat.toDigits 10 v) [] [] where
  nonempty := Nat.toDigits_ne_nil
  whole := toDigits_digits v
  fraction := .inl rfl
  exponent := .inl rfl

/-- The digits of a natural number. -/
theorem Spells.nat (v : Nat) : Spells (toString v).toList [(.int v, toString v)] endsNumeral := by
  have spells := Spells.numeral (isNumeral_toDigits v)
  rw [List.append_nil, List.append_nil, numeralKind, decimalNumber_toDigits] at spells
  rw [Nat.toString_eq_ofList_toDigits, String.toList_ofList]
  exact spells

/-! ## Writing a number -/

/-- Characters that are a numeral with a fraction or an exponent, and its value. -/
def Written (v : Double) (chars : List Char) : Prop :=
  ∃ all fraction expo,
    chars = all ++ fraction ++ expo ∧ IsNumeral all fraction expo ∧
      (fraction ≠ [] ∨ expo ≠ []) ∧ floatValue all fraction expo = v

/-- A numeral with a fraction or an exponent. -/
theorem Spells.written (raw : Written v chars) :
    Spells chars [(.float v, String.ofList chars)] endsNumeral := by
  rcases raw with ⟨all, fraction, expo, rfl, numeral, parts, same⟩
  have spells := Spells.numeral numeral
  have isFloat : numeralKind all fraction expo = .float v := by
    have some : (fraction.isEmpty && expo.isEmpty) = false := by
      rcases parts with part | part <;> simp [part]
    rw [numeralKind, some, same]
    rfl
  rw [isFloat] at spells
  exact spells

/-- The characters of a number as a literal: a fraction is added where there is neither a point
nor an exponent. -/
def pointed (chars : List Char) : List Char :=
  if chars.any fun char => char = '.' || char = 'e' then chars
  else chars ++ ['.', '0']

theorem pointed_of_written (raw : Written v chars) : pointed chars = chars := by
  rcases raw with ⟨all, fraction, expo, rfl, numeral, parts, _⟩
  refine if_pos ?_
  grind [IsNumeral.fraction, IsNumeral.exponent]

theorem pointed_of_digits (areDigits : ∀ digit ∈ digits, digit.isDigit) :
    pointed digits = digits ++ ['.', '0'] := by
  refine if_neg ?_
  rw [Bool.not_eq_true, List.any_eq_false]
  intro digit mem
  have isDigit := areDigits digit mem
  rw [Bool.or_eq_true, decide_eq_true_iff, decide_eq_true_iff]
  rintro (rfl | rfl) <;> exact absurd isDigit (by decide)

theorem pointed_minus (chars : List Char) : pointed ('-' :: chars) = '-' :: pointed chars := by
  grind [pointed]

section

variable (numeral : Decimal) {zeros place : Nat}

theorem floatValue_eq (isFraction : fraction.drop 1 = places)
    (v : decimalNumber (all ++ places) = digits)
    (weight : exponentValue expo = power + places.length) :
    floatValue all fraction expo = Decimal.toDouble false ⟨digits, power⟩ := by
  have power : exponentValue expo - (places.length : Int) = power := by omega
  simp only [floatValue, isFraction, v, power]

theorem floatValue_point (v : decimalNumber (all ++ places) = digits)
    (weight : exponentValue expo = power + places.length) :
    floatValue all ('.' :: places) expo = Decimal.toDouble false ⟨digits, power⟩ :=
  floatValue_eq rfl v weight

theorem mem_replicate_zero (mem : digit ∈ List.replicate zeros '0') : digit.isDigit := by
  rw [List.eq_of_mem_replicate mem]
  rfl

/-- Digits and zeros, for a numeral without places after the point. -/
theorem written_integer (pos : 0 < numeral.digits) (all : numeral.exponent = zeros) :
    Written (numeral.toDouble false)
      (Nat.toDigits 10 numeral.digits ++ List.replicate zeros '0' ++ ['.', '0']) := by
  refine ⟨Nat.toDigits 10 numeral.digits ++ List.replicate zeros '0', ['.', '0'], [],
    (List.append_nil _).symm,
    ⟨?_, ?_, .inr ⟨['0'], rfl, List.all_eq_true.mp (by decide)⟩, .inl rfl⟩, .inl (by simp), ?_⟩
  · simp
  · grind [toDigits_digits, mem_replicate_zero]
  · have v :
        decimalNumber (Nat.toDigits 10 numeral.digits ++ List.replicate zeros '0' ++ ['0']) =
          numeral.digits * 10 ^ (zeros + 1) := by
      rw [List.append_assoc, ← List.replicate_succ', decimalNumber_append_zeros,
        decimalNumber_toDigits]
    have weight : exponentValue [] = (-1 : Int) + (['0'] : List Char).length := rfl
    rw [floatValue_point v weight, Decimal.toDouble, Decimal.magnitude_mul_pow pos]
    have power : (-1 : Int) + (zeros + 1 : Nat) = numeral.exponent := by omega
    rw [power]
    rfl

theorem written_point (pre : 0 < place) (fits : place ≤ (Nat.toDigits 10 numeral.digits).length)
    (same : numeral.exponent + (Nat.toDigits 10 numeral.digits).length = place) :
    Written (numeral.toDouble false)
      ((Nat.toDigits 10 numeral.digits).take place ++
        '.' :: (Nat.toDigits 10 numeral.digits).drop place) := by
  have digits := toDigits_digits numeral.digits
  refine ⟨(Nat.toDigits 10 numeral.digits).take place,
    '.' :: (Nat.toDigits 10 numeral.digits).drop place, [], (List.append_nil _).symm,
    ⟨?_, ?_, .inr ⟨_, rfl, ?_⟩, .inl rfl⟩, .inl (by simp), ?_⟩
  · grind [List.take_eq_nil_iff, Nat.toDigits_ne_nil]
  · exact fun digit mem => digits digit (List.mem_of_mem_take mem)
  · exact fun digit mem => digits digit (List.mem_of_mem_drop mem)
  · refine floatValue_point ?_ ?_
    · rw [List.take_append_drop, decimalNumber_toDigits]
    · rw [List.length_drop]
      show (0 : Int) = _
      omega

theorem written_zeros
    (same : numeral.exponent + (Nat.toDigits 10 numeral.digits).length = -(zeros : Int)) :
    Written (numeral.toDouble false)
      ('0' :: '.' :: (List.replicate zeros '0' ++ Nat.toDigits 10 numeral.digits)) := by
  refine ⟨['0'], '.' :: (List.replicate zeros '0' ++ Nat.toDigits 10 numeral.digits), [],
    (List.append_nil _).symm,
    ⟨by simp, List.all_eq_true.mp (by decide), .inr ⟨_, rfl, ?_⟩, .inl rfl⟩, .inl (by simp), ?_⟩
  · grind [mem_replicate_zero, toDigits_digits]
  · refine floatValue_point ?_ ?_
    · rw [List.singleton_append, ← List.cons_append, ← List.replicate_succ,
        decimalNumber_zeros_append, decimalNumber_toDigits]
    · rw [List.length_append, List.length_replicate]
      show (0 : Int) = _
      omega

theorem exponentText_spec (power : Int) :
    ∃ sign,
      (Decimal.exponentText power).toList = 'e' :: sign :: Nat.toDigits 10 power.natAbs ∧
        (sign = '+' ∨ sign = '-') ∧
          exponentValue ('e' :: sign :: Nat.toDigits 10 power.natAbs) = power := by
  have digits : (toString power.natAbs).toList = Nat.toDigits 10 power.natAbs := by
    rw [Nat.toString_eq_ofList_toDigits, String.toList_ofList]
  unfold Decimal.exponentText
  split
  · grind [decimalNumber_toDigits, String.toList_append, exponentValue]
  · grind [decimalNumber_toDigits, String.toList_append, exponentValue]

/-- The digits after the first as a fraction, if there are any. -/
def restFraction (digits : List Char) : List Char :=
  if digits.length = 1 then [] else '.' :: digits.drop 1

theorem drop_restFraction (digits : List Char) : (restFraction digits).drop 1 = digits.drop 1 := by
  grind [restFraction]

/-- A point after the first digit and an exponent. -/
theorem written_exponent
    (same : numeral.exponent + (Nat.toDigits 10 numeral.digits).length = power + 1) :
    Written (numeral.toDouble false)
      ((Nat.toDigits 10 numeral.digits).take 1 ++ restFraction (Nat.toDigits 10 numeral.digits) ++
        (Decimal.exponentText power).toList) := by
  have digits := toDigits_digits numeral.digits
  have nonempty : Nat.toDigits 10 numeral.digits ≠ [] := Nat.toDigits_ne_nil
  have long := List.length_pos_iff.mpr nonempty
  rcases exponentText_spec power with ⟨sign, text, isSign, v⟩
  refine ⟨_, _, _, rfl, ⟨?_, ?_, ?_, ?_⟩, ?_, ?_⟩
  · simp_all
  · exact fun digit mem => digits digit (List.mem_of_mem_take mem)
  · grind [Decimal.exponentText, exponentValue, restFraction]
  · exact .inr ⟨sign, _, text, isSign, Nat.toDigits_ne_nil, toDigits_digits _⟩
  · exact .inr (by simp [text])
  · refine floatValue_eq (drop_restFraction _) ?_ ?_
    · rw [List.take_append_drop, decimalNumber_toDigits]
    · rw [text, List.length_drop]
      omega

/-- The text of a positive numeral, with a fraction added where it needs one. -/
theorem written_render (pos : 0 < numeral.digits) :
    Written (numeral.toDouble false) (pointed (numeral.render Double.places).toList) := by
  unfold Decimal.render
  simp only
  split
  · next all =>
      rw [Int.add_sub_cancel, String.toList_ofList, pointed_of_digits]
      · exact written_integer numeral pos (Int.toNat_of_nonneg (by omega)).symm
      grind [toDigits_digits, mem_replicate_zero]
  split
  · next short fits =>
      have same := Int.toNat_of_nonneg (Int.le_of_lt fits.1)
      have raw := written_point numeral (by omega) (by omega) same.symm
      rw [String.toList_ofList, pointed_of_written raw]
      exact raw
  split
  · next small =>
      have same := Int.toNat_of_nonneg (Int.neg_nonneg_of_nonpos small.2)
      have raw := written_zeros numeral (Int.neg_eq_comm.mp same.symm).symm
      rw [String.toList_ofList]
      exact raw
  · have raw := written_exponent numeral (Int.sub_add_cancel _ 1).symm
    rw [String.toList_append, String.toList_ofList]
    exact (pointed_of_written raw).symm ▸ raw

end

end Lexer

/-! ## Doubles -/

namespace Double

theorem signWeight_eq : BinaryFormat.double.signWeight = 2 ^ 63 := by
  decide +kernel

theorem infinity_lt_signWeight : BinaryFormat.double.infinity < BinaryFormat.double.signWeight := by
  decide +kernel

theorem ofMagnitude_self (num : Double) : ofMagnitude num.isNegative num.magnitude = num := by
  have small := num.bits.toNat_lt
  have same : num.magnitude +
      (if num.isNegative then BinaryFormat.double.signWeight else 0) = num.bits.toNat := by
    unfold magnitude isNegative
    rw [signWeight_eq]
    grind
  rw [ofMagnitude, same, UInt64.ofNat_toNat]

section

variable {negative : Bool} {mag : Nat}

variable (small : mag < BinaryFormat.double.signWeight)
include small

theorem toNat_ofMagnitude :
    (ofMagnitude negative mag).bits.toNat =
      mag + if negative then BinaryFormat.double.signWeight else 0 := by
  have size : UInt64.size = 2 ^ 64 := rfl
  unfold ofMagnitude
  rw [signWeight_eq] at small ⊢
  refine UInt64.toNat_ofNat_of_lt' ?_
  split <;> omega

theorem magnitude_ofMagnitude : (ofMagnitude negative mag).magnitude = mag := by
  rw [Double.magnitude, toNat_ofMagnitude small]
  split
  · rw [Nat.add_mod_right, Nat.mod_eq_of_lt small]
  · rw [Nat.add_zero, Nat.mod_eq_of_lt small]

theorem isNegative_ofMagnitude : (ofMagnitude negative mag).isNegative = negative := by
  grind [isNegative, toNat_ofMagnitude]

end

/-- There is one number that is not a number. -/
def Canonical (num : Double) : Prop :=
  num.isNaN → num = nan

theorem canonical_nan : Canonical nan :=
  fun _ => rfl

theorem canonical_ofMagnitude (bounded : mag ≤ BinaryFormat.double.infinity) :
    Canonical (ofMagnitude negative mag) := by
  intro isNaN
  have small := Nat.lt_of_le_of_lt bounded infinity_lt_signWeight
  rw [Double.isNaN, magnitude_ofMagnitude small, decide_eq_true_iff] at isNaN
  omega

theorem canonical_negate (num : Double) : Canonical num.negate := by
  unfold negate
  split
  · exact canonical_nan
  · next real =>
      rw [isNaN, decide_eq_true_iff, Nat.not_lt] at real
      exact canonical_ofMagnitude real

theorem negate_ofMagnitude (bounded : mag ≤ BinaryFormat.double.infinity) :
    (ofMagnitude negative mag).negate = ofMagnitude (!negative) mag := by
  have small := Nat.lt_of_le_of_lt bounded infinity_lt_signWeight
  have real : ¬(ofMagnitude negative mag).isNaN := by
    rw [isNaN, magnitude_ofMagnitude small, decide_eq_true_iff]
    omega
  rw [negate, if_neg real, isNegative_ofMagnitude small, magnitude_ofMagnitude small]

theorem written_zero : Lexer.Written (ofMagnitude false 0) ['0', '.', '0'] := by
  refine ⟨['0'], ['.', '0'], [], rfl,
    ⟨by decide, List.all_eq_true.mp (by decide), .inr ⟨['0'], rfl, List.all_eq_true.mp (by decide)⟩,
      .inl rfl⟩, .inl (by decide), ?_⟩
  rfl

theorem real_of_isFinite (finite : num.isFinite) : ¬num.isNaN ∧ ¬num.isInfinite := by
  grind [isInfinite, isFinite, isNaN]

theorem toText_finite (finite : num.isFinite) (nonzero : ¬num.isZero) :
    num.toText.toList = (if num.isNegative then ['-'] else []) ++
      ((Decimal.shortest num.magnitude).render places).toList := by
  rcases real_of_isFinite finite with ⟨real, bounded⟩
  simp only [toText, if_neg real, if_neg nonzero, if_neg bounded]
  split
  · rw [String.toList_append]
    rfl
  · rw [List.nil_append]

/-- A number that is neither zero nor without a finite value, as its sign and its digits. -/
theorem printLiteral_eq (finite : num.isFinite) (signed : ¬(num.isZero && num.isNegative)) :
    num.printLiteral.toList = Lexer.pointed num.toText.toList := by
  rcases real_of_isFinite finite with ⟨real, bounded⟩
  simp only [printLiteral, if_neg real, if_neg bounded, if_neg signed, Lexer.pointed]
  split
  · rfl
  · rw [String.toList_append]
    rfl

/-- The literal of a finite number is a numeral after its sign. -/
theorem printLiteral_finite (finite : num.isFinite) :
    ∃ chars,
      num.printLiteral.toList = (if num.isNegative then ['-'] else []) ++ chars ∧
        Lexer.Written (ofMagnitude false num.magnitude) chars := by
  by_cases zero : num.isZero
  · have none : num.magnitude = 0 := by simpa [isZero] using zero
    refine ⟨['0', '.', '0'], ?_, none ▸ written_zero⟩
    by_cases negative : num.isNegative
    · rcases real_of_isFinite finite with ⟨real, bounded⟩
      simp only [printLiteral, if_neg real, if_neg bounded, zero, negative, Bool.and_self, if_true]
      rfl
    · rcases real_of_isFinite finite with ⟨real, _⟩
      have text : num.toText = "0" := by
        simp only [toText, if_neg real, if_pos zero]
      rw [printLiteral_eq finite (by simp [negative]), text, if_neg negative]
      rfl
  · refine ⟨Lexer.pointed ((Decimal.shortest num.magnitude).render places).toList, ?_, ?_⟩
    · rw [printLiteral_eq finite (by simp [zero]), toText_finite finite zero]
      split
      · rw [List.singleton_append, List.singleton_append, Lexer.pointed_minus]
      · rw [List.nil_append, List.nil_append]
    · have pos : 0 < num.magnitude := by
        rw [isZero, decide_eq_true_iff] at zero
        omega
      rw [isFinite, decide_eq_true_iff] at finite
      rcases Decimal.shortest_spec pos finite with ⟨same, digits⟩
      have raw := Lexer.written_render (Decimal.shortest num.magnitude) digits
      rw [Decimal.toDouble, same] at raw
      exact raw

end Double

end FlatSchema
