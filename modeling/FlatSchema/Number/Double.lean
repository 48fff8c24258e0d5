/-!
# Binary floating-point numbers

A `Double` is a 64-bit binary floating-point number, given by its bits, and a
single-precision number is handled through the same rounding at another
`BinaryFormat`.  All conversions are exact integer arithmetic: a magnitude is
a ratio of natural numbers, and `BinaryFormat.roundRatio` is the one place
where it is rounded, to the nearest representable magnitude and to an even
significand where two are equally near.

There is one not-a-number: `Double.ofBits` maps every bit pattern of that
class to it.
-/

namespace FlatSchema

/-- The nearest natural number to a quotient, the even one of two that are equally near. -/
def roundQuotient (numerator denominator : Nat) : Nat :=
  let quotient := numerator / denominator
  let remainder := numerator % denominator
  if 2 * remainder < denominator then quotient
  else if denominator < 2 * remainder then quotient + 1
  else if quotient % 2 = 0 then quotient
  else quotient + 1

/-- A binary format: the bits of a significand, leading bit included, and those of the exponent. -/
structure BinaryFormat where
  precision : Nat
  exponentBits : Nat
deriving DecidableEq, Repr

namespace BinaryFormat

def double : BinaryFormat := ⟨53, 11⟩

def single : BinaryFormat := ⟨24, 8⟩

variable (fmt : BinaryFormat)

def leastExponent : Int :=
  3 - (Nat.pow 2 (fmt.exponentBits - 1) : Nat) - fmt.precision

/-- The weight of the exponent field: the bits below it hold the significand. -/
def unitWeight : Nat :=
  Nat.pow 2 (fmt.precision - 1)

/-- The magnitude bits of infinity; larger magnitude bits are not numbers. -/
def infinity : Nat :=
  (Nat.pow 2 fmt.exponentBits - 1) * fmt.unitWeight

def signWeight : Nat :=
  Nat.pow 2 fmt.exponentBits * fmt.unitWeight

/-- The numerator of a ratio divided by a power of two, over the denominator `scaledDenominator`. -/
def scaledNumerator (numerator : Nat) (exponent : Int) : Nat :=
  numerator * Nat.pow 2 (-exponent).toNat

def scaledDenominator (denominator : Nat) (exponent : Int) : Nat :=
  denominator * Nat.pow 2 exponent.toNat

def exponentOf (numerator denominator : Nat) : Int :=
  let guess : Int := (numerator.log2 : Int) - denominator.log2 - fmt.precision
  let least := max fmt.leastExponent guess
  if scaledNumerator numerator least / scaledDenominator denominator least <
      Nat.pow 2 fmt.precision then
    least
  else
    least + 1

/-- The magnitude bits of the representable number nearest to a ratio; infinity beyond the range. -/
def roundRatio (numerator denominator : Nat) : Nat :=
  if numerator = 0 then 0
  else
    let exponent := fmt.exponentOf numerator denominator
    let significand :=
      roundQuotient (scaledNumerator numerator exponent) (scaledDenominator denominator exponent)
    min fmt.infinity
      ((exponent - fmt.leastExponent).toNat * fmt.unitWeight + significand)

def significand (magnitude : Nat) : Nat :=
  if magnitude < fmt.unitWeight then magnitude
  else fmt.unitWeight + magnitude % fmt.unitWeight

def exponent (magnitude : Nat) : Int :=
  fmt.leastExponent + (magnitude / fmt.unitWeight - 1 : Nat)

def numerator (magnitude : Nat) : Nat :=
  fmt.significand magnitude * Nat.pow 2 (fmt.exponent magnitude).toNat

def denominator (magnitude : Nat) : Nat :=
  Nat.pow 2 (-fmt.exponent magnitude).toNat

end BinaryFormat

structure Double where
  bits : UInt64
deriving DecidableEq, Inhabited, Repr

namespace Double

def nan : Double := ⟨0x7ff8000000000000⟩

variable (num : Double)

def magnitude : Nat :=
  num.bits.toNat % BinaryFormat.double.signWeight

def isNegative : Bool :=
  BinaryFormat.double.signWeight ≤ num.bits.toNat

def isNaN : Bool :=
  BinaryFormat.double.infinity < num.magnitude

def isInfinite : Bool :=
  num.magnitude = BinaryFormat.double.infinity

def isFinite : Bool :=
  num.magnitude < BinaryFormat.double.infinity

def isZero : Bool :=
  num.magnitude = 0

/-- The number of a bit pattern, with one not-a-number for all patterns of that class. -/
def ofBits (bits : UInt64) : Double :=
  if (Double.mk bits).isNaN then nan else ⟨bits⟩

def ofMagnitude (neg : Bool) (magnitude : Nat) : Double :=
  ⟨UInt64.ofNat (magnitude + if neg then BinaryFormat.double.signWeight else 0)⟩

def infinity (neg : Bool) : Double :=
  ofMagnitude neg BinaryFormat.double.infinity

def zero : Double := ⟨0⟩

def negate : Double :=
  if num.isNaN then nan else ofMagnitude (!num.isNegative) num.magnitude

def ofRatio (neg : Bool) (numerator denominator : Nat) : Double :=
  ofMagnitude neg (BinaryFormat.double.roundRatio numerator denominator)

def ofInt (v : Int) : Double :=
  ofRatio (v < 0) v.natAbs 1

def numerator : Nat :=
  BinaryFormat.double.numerator num.magnitude

def denominator : Nat :=
  BinaryFormat.double.denominator num.magnitude

def truncate? : Option Int :=
  if num.isFinite then
    let whole : Int := (num.numerator / num.denominator : Nat)
    some (if num.isNegative then -whole else whole)
  else
    none

def integer? : Option Int :=
  if num.isFinite && num.numerator % num.denominator = 0 then num.truncate?
  else none

/-- Equality of values: the two zeros are equal, and not-a-number differs from everything. -/
def sameValue (left right : Double) : Bool :=
  !left.isNaN && !right.isNaN && (left = right || (left.isZero && right.isZero))

def toSingleBits : UInt32 :=
  let fmt := BinaryFormat.single
  if num.isNaN then 0x7fc00000
  else
    let magnitude :=
      if num.isInfinite then fmt.infinity
      else fmt.roundRatio num.numerator num.denominator
    UInt32.ofNat (magnitude + if num.isNegative then fmt.signWeight else 0)

def ofSingleBits (bits : UInt32) : Double :=
  let fmt := BinaryFormat.single
  let neg : Bool := fmt.signWeight ≤ bits.toNat
  let magnitude := bits.toNat % fmt.signWeight
  if fmt.infinity < magnitude then nan
  else if magnitude = fmt.infinity then infinity neg
  else ofRatio neg (fmt.numerator magnitude) (fmt.denominator magnitude)

end Double

end FlatSchema
