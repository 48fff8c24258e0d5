import FlatSchema.Number.Arithmetic

/-!
# Extents

Positions in a buffer, sizes and offsets are integers.  Floating-point numbers
do as well, with their own arithmetic: an access begins at the byte below,
toward zero, so a fraction just under zero is still the first byte, and what
is not a number stands for the first byte too.  `Extent` is what buffers and
builders ask of either.
-/

namespace FlatSchema

/-- Numbers that count bytes. -/
class Extent (ν : Type) extends Add ν, Sub ν, Mul ν, BEq ν where
  ofInt : Int → ν
  less : ν → ν → Bool
  /-- Whether two extents are equal as numbers; what is not a number equals nothing. -/
  same : ν → ν → Bool
  truncate? : ν → Option Int
  ceiling? : ν → Option Int
  toDouble : ν → Double

namespace Extent

instance : Extent Int where
  ofInt v := v
  less left right := decide (left < right)
  same left right := decide (left = right)
  truncate? := some
  ceiling? := some
  toDouble := Double.ofInt

instance : Extent Double where
  ofInt := Double.ofInt
  less := Double.below
  same left right := !left.isNaN && (left.bits == right.bits || left.isZero && right.isZero)
  truncate? := Double.truncate?
  ceiling? := Double.ceiling?
  toDouble num := num

@[simp]
theorem ofInt_int (v : Int) : (ofInt v : Int) = v :=
  rfl

@[simp]
theorem less_int (left right : Int) : less left right = decide (left < right) :=
  rfl

@[simp]
theorem same_int (left right : Int) : same left right = decide (left = right) :=
  rfl

@[simp]
theorem truncate?_int (v : Int) : truncate? v = some v :=
  rfl

@[simp]
theorem ceiling?_int (v : Int) : ceiling? v = some v :=
  rfl

section

variable {ν : Type} [Extent ν]

def integer? (extent : ν) : Option Int :=
  (truncate? extent).filter fun whole => same (ofInt whole) extent

/-- The byte at which an access begins; none before the first byte or at infinity. -/
def byte? (pos : ν) : Option Nat :=
  match truncate? pos with
  | some whole => if 0 ≤ whole then some whole.toNat else none
  | none => if same pos pos then none else some 0

/-- The byte at which an access begins, or the first byte if there is none. -/
def byteOrFirst (pos : ν) : Nat :=
  (byte? pos).getD 0

/-- The low 32 bits of an extent without its fraction; what is not finite has none. -/
def word (extent : ν) : BitVec 32 :=
  BitVec.ofInt 32 ((truncate? extent).getD 0)

end

@[simp]
theorem integer?_int (v : Int) : integer? v = some v := by
  simp [integer?, Option.filter]

@[simp]
theorem byte?_natCast (v : Nat) : byte? (v : Int) = some v := by
  simp [byte?]

@[simp]
theorem byteOrFirst_int (pos : Int) : byteOrFirst pos = pos.toNat := by
  by_cases inside : 0 ≤ pos
  · simp [byteOrFirst, byte?, inside]
  · simp only [byteOrFirst, byte?, truncate?_int, inside, if_false, Option.getD_none]
    omega

@[simp]
theorem word_int (v : Int) : word v = BitVec.ofInt 32 v :=
  rfl

end Extent

end FlatSchema
