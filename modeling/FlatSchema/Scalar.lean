/-!
# Scalar kinds

The eleven scalar types of the wire format with their names, widths and, for
the integral ones, their value ranges.  A schema may write some kinds in more
than one way; `ScalarKind.ofSpelling?` knows all spellings.
-/

namespace FlatSchema

inductive ScalarKind where
  | bool
  | int8
  | uint8
  | int16
  | uint16
  | int32
  | uint32
  | int64
  | uint64
  | float32
  | float64
deriving DecidableEq, Inhabited, Repr

namespace ScalarKind

def all : List ScalarKind :=
  [.bool, .int8, .uint8, .int16, .uint16, .int32, .uint32, .int64, .uint64, .float32, .float64]

def name : ScalarKind → String
  | .bool => "bool"
  | .int8 => "int8"
  | .uint8 => "uint8"
  | .int16 => "int16"
  | .uint16 => "uint16"
  | .int32 => "int32"
  | .uint32 => "uint32"
  | .int64 => "int64"
  | .uint64 => "uint64"
  | .float32 => "float32"
  | .float64 => "float64"

def ofName? (name : String) : Option ScalarKind :=
  all.find? fun kind => kind.name == name

def ofSpelling? (spelling : String) : Option ScalarKind :=
  match spelling with
  | "byte" => some .int8
  | "ubyte" => some .uint8
  | "short" => some .int16
  | "ushort" => some .uint16
  | "int" => some .int32
  | "uint" => some .uint32
  | "long" => some .int64
  | "ulong" => some .uint64
  | "float" => some .float32
  | "double" => some .float64
  | canonical => ofName? canonical

/-- The width of a kind in bytes, which is also its alignment. -/
def size : ScalarKind → Nat
  | .bool | .int8 | .uint8 => 1
  | .int16 | .uint16 => 2
  | .int32 | .uint32 | .float32 => 4
  | .int64 | .uint64 | .float64 => 8

def isIntegral : ScalarKind → Bool
  | .bool | .float32 | .float64 => false
  | _ => true

def isWide : ScalarKind → Bool
  | .int64 | .uint64 => true
  | _ => false

def isUnsigned : ScalarKind → Bool
  | .uint8 | .uint16 | .uint32 | .uint64 => true
  | _ => false

variable (kind : ScalarKind)

def least : Int :=
  if kind.isUnsigned then 0 else -(Nat.pow 2 (8 * kind.size - 1) : Nat)

def greatest : Int :=
  (Nat.pow 2 (if kind.isUnsigned then 8 * kind.size else 8 * kind.size - 1) : Nat) - 1

def holds (v : Int) : Bool :=
  kind.least ≤ v && v ≤ kind.greatest

theorem size_pos : 0 < kind.size := by
  cases kind <;> decide

end ScalarKind

end FlatSchema
