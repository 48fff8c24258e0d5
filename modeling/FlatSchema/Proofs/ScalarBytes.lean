import FlatSchema.Wire.Scalar
import Mathlib.Algebra.Order.Ring.Int
import Mathlib.Data.Int.ModEq

/-!
# What a scalar reads back as

A value that is stored in the bytes of a scalar kind reads back as its
conversion to that kind.  Integers are truncated and wrapped to their width,
single-precision numbers are rounded, and truth values, wide integers and
double-precision numbers keep what they hold.
-/

namespace FlatSchema

namespace ScalarKind

variable (kind : ScalarKind)

/-- The integer of an integral kind that agrees with a given one modulo the range of the kind. -/
def wrap (v : Int) : Int :=
  if kind.isUnsigned then v % (Nat.pow 256 kind.size : Nat)
  else v.bmod (Nat.pow 256 kind.size)

/-- The value that a kind makes of a scalar. -/
def convert (v : ScalarValue) : ScalarValue :=
  match kind with
  | .bool => .flag !(v.toNumber.isZero || v.toNumber.isNaN)
  | .int64 | .uint64 => .wide (kind.wrap (v.toInteger?.getD 0))
  | .float32 => .number (Double.ofSingleBits v.toNumber.toSingleBits)
  | .float64 => .number (if v.toNumber.isNaN then Double.nan else v.toNumber)
  | integral => .number (Double.ofInt (integral.wrap (v.toNumber.truncate?.getD 0)))

/-- The number that is stored for an integer stands for the integer wrapped to the width. -/
theorem signed_emod (v : Int) :
    kind.signed (v % (Nat.pow 256 kind.size : Nat)).toNat = kind.wrap v := by
  have pos : (0 : Int) < (Nat.pow 256 kind.size : Nat) := by
    exact_mod_cast Nat.pow_pos (by decide : 0 < 256)
  have nonneg := Int.emod_nonneg v (Int.ne_of_gt pos)
  grind [signed, wrap, size]

theorem ofLittleEndian_littleEndianInt (width : Nat) (v : Int) :
    ofLittleEndian (littleEndianInt width v) = (v % (Nat.pow 256 width : Nat)).toNat := by
  have pos : (0 : Int) < (Nat.pow 256 width : Nat) := by
    exact_mod_cast Nat.pow_pos (by decide : 0 < 256)
  have below := Int.emod_lt_of_pos v pos
  rw [littleEndianInt, ofLittleEndian_littleEndian, Nat.mod_eq_of_lt]
  omega

/-- The bits of a number survive the bytes of its width. -/
theorem ofLittleEndian_of_lt (fits : v < Nat.pow 256 width) :
    ofLittleEndian (littleEndian width v) = v := by
  rw [ofLittleEndian_littleEndian, Nat.mod_eq_of_lt fits]

theorem length_of_encode {kind : ScalarKind} (enc : kind.encode? v = some bs) :
    bs.length = kind.size := by
  cases kind with
  | int64 | uint64 =>
    rcases Option.map_eq_some_iff.mp enc with ⟨_, _, rfl⟩
    exact length_littleEndianInt 8 _
  | _ =>
    cases enc
    rfl

/-- Reading back what was stored gives the conversion of the value. -/
theorem decode_of_encode {kind : ScalarKind} (enc : kind.encode? v = some bs) :
    kind.decode bs = kind.convert v := by
  cases kind with
  | bool =>
    cases enc
    simp only [decode, convert]
    cases v.toNumber.isZero || v.toNumber.isNaN <;> rfl
  | int64 | uint64 =>
    rcases Option.map_eq_some_iff.mp enc with ⟨all, hit, rfl⟩
    simp only [decode, convert, hit, ofLittleEndian_littleEndianInt]
    exact congrArg ScalarValue.wide (signed_emod _ all)
  | float32 =>
    cases enc
    simp only [decode, convert]
    rw [ofLittleEndian_of_lt (UInt32.toNat_lt _), UInt32.ofNat_toNat]
  | float64 =>
    cases enc
    simp only [decode, convert]
    rw [ofLittleEndian_of_lt (UInt64.toNat_lt _), UInt64.ofNat_toNat]
    split
    · rfl
    · next num =>
        rw [Double.ofBits, if_neg num]
  | int8 | uint8 | int16 | uint16 | int32 | uint32 =>
    cases enc
    simp only [decode, convert, ofLittleEndian_littleEndianInt, signed_emod]

end ScalarKind

end FlatSchema
