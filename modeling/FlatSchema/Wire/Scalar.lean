import FlatSchema.Number.Double
import FlatSchema.Scalar

/-!
# Scalars as bytes

Numbers are stored with the least significant byte first.  A scalar value is a
truth value, a wide integer or a floating-point number; each kind of scalar
takes any of them and converts it first.  Integers of up to 32 bits drop the
fraction and keep the low bits, and what is not finite counts as zero.  Wide
integers keep the low 64 bits of an integer, and what is not finite has none.
-/

namespace FlatSchema

/-- A scalar value.  Integers of 64 bits are `wide`, truth values `flag`, all others `num`. -/
inductive ScalarValue where
  | number (v : Double)
  | wide (v : Int)
  | flag (v : Bool)
deriving DecidableEq, Inhabited, Repr

def littleEndian : Nat → Nat → List UInt8
  | 0, _ => []
  | width + 1, v => UInt8.ofNat (v % 256) :: littleEndian width (v / 256)

@[simp]
theorem length_littleEndian (width v : Nat) : (littleEndian width v).length = width := by
  induction width generalizing v with
  | zero => rfl
  | succ width ih => simp [littleEndian, ih]

def ofLittleEndian : List UInt8 → Nat
  | [] => 0
  | byte :: rest => byte.toNat + 256 * ofLittleEndian rest

@[simp]
theorem ofLittleEndian_littleEndian (width v : Nat) :
    ofLittleEndian (littleEndian width v) = v % Nat.pow 256 width := by
  induction width generalizing v with
  | zero => simp [littleEndian, ofLittleEndian, Nat.mod_one]
  | succ width ih =>
    simp only [littleEndian, ofLittleEndian, ih, UInt8.toNat_ofNat']
    rw [Nat.pow_eq, Nat.pow_eq, Nat.pow_succ' (n := width), Nat.mod_mul]
    omega

def littleEndianInt (width : Nat) (v : Int) : List UInt8 :=
  littleEndian width (v % (Nat.pow 256 width : Nat)).toNat

@[simp]
theorem length_littleEndianInt (width : Nat) (v : Int) : (littleEndianInt width v).length = width :=
  length_littleEndian width _

namespace ScalarValue

def toNumber : ScalarValue → Double
  | .number v => v
  | .wide v => Double.ofInt v
  | .flag v => if v then Double.ofInt 1 else Double.zero

def toInteger? : ScalarValue → Option Int
  | .number v => v.truncate?
  | .wide v => some v
  | .flag v => some (if v then 1 else 0)

/-- Whether two values count as the same default: of one sort and equal, where the two zeros are
equal and so are two values that are not numbers. -/
def same : ScalarValue → ScalarValue → Bool
  | .number left, .number right => left.sameValue right || (left.isNaN && right.isNaN)
  | .wide left, .wide right => left = right
  | .flag left, .flag right => left = right
  | _, _ => false

end ScalarValue

namespace ScalarKind

/-- The bytes in which a kind stores a value.  Only wide integers refuse a value. -/
def encode? (kind : ScalarKind) (v : ScalarValue) : Option (List UInt8) :=
  match kind with
  | .bool =>
    let num := v.toNumber
    some [if num.isZero || num.isNaN then 0 else 1]
  | .int64 | .uint64 => v.toInteger?.map (littleEndianInt 8)
  | .float32 => some (littleEndian 4 v.toNumber.toSingleBits.toNat)
  | .float64 =>
    let num := v.toNumber
    some (littleEndian 8 (if num.isNaN then Double.nan else num).bits.toNat)
  | integral => some (littleEndianInt integral.size (v.toNumber.truncate?.getD 0))

def signed (kind : ScalarKind) (stored : Nat) : Int :=
  if kind.isUnsigned || 2 * stored < Nat.pow 256 kind.size then stored
  else (stored : Int) - (Nat.pow 256 kind.size : Nat)

def decode (kind : ScalarKind) (bs : List UInt8) : ScalarValue :=
  let stored := ofLittleEndian bs
  match kind with
  | .bool => .flag (stored != 0)
  | .int64 | .uint64 => .wide (kind.signed stored)
  | .float32 => .number (Double.ofSingleBits (UInt32.ofNat stored))
  | .float64 => .number (Double.ofBits (UInt64.ofNat stored))
  | integral => .number (Double.ofInt (integral.signed stored))

end ScalarKind

end FlatSchema
