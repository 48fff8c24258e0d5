import FlatSchema.Number.Double

/-!
# Decimal numerals of floating-point numbers

Reading rounds a decimal numeral to the nearest number.  Writing takes the
fewest significant digits that read back as the number and, of the numerals
with that many digits, the nearest to it: `shortest` tries one digit after
another and keeps a candidate only if reading it gives the number again, with
the exact expansion behind all candidates.  `PlaceRange` fixes where positional
writing ends, and `Double.toText` is the text of a number of any kind.
-/

namespace FlatSchema

structure Decimal where
  digits : Nat
  exponent : Int
deriving DecidableEq, Repr

namespace Decimal

def digitCount (v : Nat) : Nat :=
  (Nat.toDigits 10 v).length

def numerator (numeral : Decimal) : Nat :=
  numeral.digits * Nat.pow 10 numeral.exponent.toNat

def denominator (numeral : Decimal) : Nat :=
  Nat.pow 10 (-numeral.exponent).toNat

/--
The magnitude bits of the number nearest to a numeral.  Numerals whose first
digit stands beyond the four-hundredth place on either side of the point are
decided without computing the power.
-/
def magnitude (numeral : Decimal) : Nat :=
  let leading := numeral.exponent + digitCount numeral.digits
  if numeral.digits = 0 ∨ leading < -400 then 0
  else if 400 < leading then BinaryFormat.double.infinity
  else BinaryFormat.double.roundRatio numeral.numerator numeral.denominator

def toDouble (neg : Bool) (numeral : Decimal) : Double :=
  Double.ofMagnitude neg numeral.magnitude

/-- The place after the first digit of a positive ratio: the least power of ten above it. -/
def leadingPlace (numerator denominator : Nat) : Int :=
  if denominator ≤ numerator then
    digitCount (numerator / denominator)
  else
    let place : Int := 1 - (digitCount (denominator / numerator) : Nat)
    if numerator * Nat.pow 10 (-place).toNat < denominator then place else place + 1

/-- The two neighbours of a ratio among the numerals with a given exponent, the nearer first. -/
def neighbours (numerator denominator : Nat) (expo : Int) : List Decimal :=
  let scaled := numerator * Nat.pow 10 (-expo).toNat
  let unit := denominator * Nat.pow 10 expo.toNat
  let below : Decimal := ⟨scaled / unit, expo⟩
  let above : Decimal := ⟨scaled / unit + 1, expo⟩
  if 2 * (scaled % unit) < unit then [below, above]
  else if unit < 2 * (scaled % unit) then [above, below]
  else if scaled / unit % 2 = 0 then [below, above]
  else [above, below]

/-- The first numeral that reads back, trying up to a number of further digits. -/
def searchDigits (magnitude numerator denominator : Nat) (place : Int) : Nat → Nat → Option Decimal
  | 0, _ => none
  | remaining + 1, n =>
    match
      (neighbours numerator denominator (place - n)).find?
        fun cand => cand.magnitude == magnitude with
    | some numeral => some numeral
    | none => searchDigits magnitude numerator denominator place remaining (n + 1)

def trim (numeral : Decimal) : Decimal :=
  if numeral.digits % 10 = 0 ∧ 0 < numeral.digits then
    trim ⟨numeral.digits / 10, numeral.exponent + 1⟩
  else numeral
termination_by numeral.digits
decreasing_by omega

def exact (numerator denominator : Nat) : Decimal :=
  let places := denominator.log2
  ⟨numerator * Nat.pow 5 places, -(places : Int)⟩

def shortest (magnitude : Nat) : Decimal :=
  let numerator := BinaryFormat.double.numerator magnitude
  let denominator := BinaryFormat.double.denominator magnitude
  match searchDigits magnitude numerator denominator (leadingPlace numerator denominator) 17 1 with
  | some numeral => numeral.trim
  | none => (exact numerator denominator).trim

structure PlaceRange where
  leastPlace : Int
  greatestPlace : Int
deriving DecidableEq, Repr

def exponentText (expo : Int) : String :=
  if expo < 0 then "e-" ++ toString expo.natAbs else "e+" ++ toString expo.natAbs

def render (range : PlaceRange) (numeral : Decimal) : String :=
  let digits := Nat.toDigits 10 numeral.digits
  let n := digits.length
  let place := numeral.exponent + n
  if n ≤ place ∧ place ≤ range.greatestPlace then
    String.ofList (digits ++ List.replicate (place - n).toNat '0')
  else if 0 < place ∧ place ≤ range.greatestPlace then
    String.ofList (digits.take place.toNat ++ '.' :: digits.drop place.toNat)
  else if range.leastPlace < place ∧ place ≤ 0 then
    String.ofList ('0' :: '.' :: (List.replicate (-place).toNat '0' ++ digits))
  else
    let frac := if n = 1 then [] else '.' :: digits.drop 1
    String.ofList (digits.take 1 ++ frac) ++ exponentText (place - 1)

end Decimal

namespace Double

/-- Numbers are written without an exponent from six zeros after the point up to 21 places. -/
def places : Decimal.PlaceRange := ⟨-6, 21⟩

/-- The text of a number; the sign of zero is not written. -/
def toText (num : Double) : String :=
  if num.isNaN then "NaN"
  else if num.isZero then "0"
  else
    let body :=
      if num.isInfinite then "Infinity"
      else (Decimal.shortest num.magnitude).render places
    if num.isNegative then "-" ++ body else body

end Double

end FlatSchema
