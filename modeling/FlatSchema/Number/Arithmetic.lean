import FlatSchema.Number.Double

/-!
# Arithmetic of floating-point numbers

The four operations are exact on rational numbers and then rounded once.  A
sum that is zero is positive zero unless both terms are negative zeros.  What
has no value, such as the quotient of two zeros, is not a number, and whatever
is computed from that is none either.
-/

namespace FlatSchema.Double

/-- The value of a number.  Infinity has that of the power of two after the greatest number, and so
stands above all others. -/
def value (num : Double) : Rat :=
  mkRat (if num.isNegative then -(num.numerator : Int) else num.numerator) num.denominator

/-- The number nearest to a value; where that is zero, the sign is as given. -/
def ofRat (neg : Bool) (v : Rat) : Double :=
  ofRatio neg v.num.natAbs v.den

variable (left right : Double)

def add : Double :=
  if left.isNaN || right.isNaN then nan
  else if left.isInfinite then
    if right.isInfinite && left.isNegative != right.isNegative then nan else left
  else if right.isInfinite then right
  else if left.isZero && right.isZero then ofMagnitude (left.isNegative && right.isNegative) 0
  else
    let total := left.value + right.value
    ofRat (total < 0) total

def sub : Double :=
  left.add right.negate

def mul : Double :=
  let neg := left.isNegative != right.isNegative
  if left.isNaN || right.isNaN then nan
  else if left.isInfinite || right.isInfinite then
    if left.isZero || right.isZero then nan else infinity neg
  else ofRat neg (left.value * right.value)

def div : Double :=
  let neg := left.isNegative != right.isNegative
  if left.isNaN || right.isNaN then nan
  else if left.isInfinite then
    if right.isInfinite then nan else infinity neg
  else if right.isInfinite then ofMagnitude neg 0
  else if right.isZero then
    if left.isZero then nan else infinity neg
  else ofRat neg (left.value / right.value)

/-- Whether a number lies below another; nothing lies below or above what is not a number. -/
def below : Bool :=
  !left.isNaN && !right.isNaN && left.value < right.value

def atMost : Bool :=
  !left.isNaN && !right.isNaN && !right.below left

def ceiling? (num : Double) : Option Int :=
  if num.isFinite then some num.value.ceil else none

/-- The least whole number that is not below a number, with the sign of that number. -/
def ceil (num : Double) : Double :=
  match num.ceiling? with
  | some whole => ofRatio num.isNegative whole.natAbs 1
  | none => num

instance : Add Double := ⟨add⟩

instance : Sub Double := ⟨sub⟩

instance : Mul Double := ⟨mul⟩

instance : Div Double := ⟨div⟩

instance (v : Nat) : OfNat Double v := ⟨ofInt v⟩

end FlatSchema.Double
