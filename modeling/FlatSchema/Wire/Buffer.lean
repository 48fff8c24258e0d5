import FlatSchema.Text.Utf8
import FlatSchema.Wire.Error
import FlatSchema.Wire.Extent
import FlatSchema.Wire.Scalar

/-!
# Buffers

A buffer is a sequence of bytes that is read and written at absolute
positions.  Every access outside it fails and changes nothing.

A table begins with the distance back to its vtable.  The vtable holds its own
size, the size of the table and, for each slot, the distance of the field from
the start of the table, or zero.  Other references are distances forward from
where they stand.
-/

namespace FlatSchema

structure Buffer where
  bytes : Array UInt8
deriving DecidableEq, Inhabited, Repr

namespace Buffer

variable {ν : Type} [Extent ν]

def zeros (size : Nat) : Buffer :=
  ⟨Array.replicate size 0⟩

def sizeLimit : Nat := 0x200000000

def room? (size : ν) : Except WireError Nat :=
  match (Extent.byte? size).filter (· ≤ sizeLimit) with
  | some whole => .ok whole
  | none => .error .outOfRange

def ofList (bs : List UInt8) : Buffer :=
  ⟨bs.toArray⟩

variable (buf : Buffer)

def size : Nat :=
  buf.bytes.size

def inside? (pos : ν) (width : Nat) : Option Nat :=
  (Extent.byte? pos).filter fun first => first + width ≤ buf.size

def slice (pos : ν) (width : Nat) : Except WireError (List UInt8) :=
  match buf.inside? pos width with
  | some first => .ok (buf.bytes.extract first (first + width)).toList
  | none => .error .outOfRange

def overwrite (pos : ν) (repl : List UInt8) : Except WireError Buffer :=
  match buf.inside? pos repl.length with
  | some first =>
    .ok ⟨buf.bytes.extract 0 first ++ repl.toArray ++
      buf.bytes.extract (first + repl.length) buf.size⟩
  | none => .error .outOfRange

theorem add_le_size_of_inside? {buf : Buffer} {pos : ν} {width first : Nat}
    (hit : buf.inside? pos width = some first) : first + width ≤ buf.size := by
  simpa using (Option.filter_eq_some_iff.mp hit).2

def readScalar (kind : ScalarKind) (pos : ν) : Except WireError ScalarValue :=
  (buf.slice pos kind.size).map kind.decode

def writeScalar (kind : ScalarKind) (pos : ν) (v : ScalarValue) : Except WireError Buffer :=
  match kind.encode? v with
  | some bs => buf.overwrite pos bs
  | none => .error .notInteger

def readNat (width : Nat) (pos : ν) : Except WireError Nat :=
  (buf.slice pos width).map ofLittleEndian

def readBack (pos : ν) : Except WireError Int :=
  (buf.readNat 4 pos).map ScalarKind.int32.signed

/-- Where the reference at a position leads. -/
def follow (pos : ν) : Except WireError ν := do
  let dist ← buf.readNat 4 pos
  return pos + Extent.ofInt dist

def prefixSize (sized : Bool) : Nat :=
  if sized then 4 else 0

def rootTable (sized : Bool) : Except WireError Int :=
  buf.follow (prefixSize sized : Int)

/-- The distance of a field from the start of its table, given where its slot stands in the
vtable.  It is zero if the field is not stored or the vtable is too short for it. -/
def fieldOffset (t e : ν) : Except WireError Nat := do
  let back ← buf.readBack t
  let vt := t - Extent.ofInt back
  let vtableSize ← buf.readNat 2 vt
  if Extent.less e (Extent.ofInt vtableSize) then buf.readNat 2 (vt + e) else return 0

/-- The bytes from one position to another as far as they lie inside the buffer. -/
def clipped (start stop : ν) : List UInt8 :=
  (buf.bytes.extract (Extent.byteOrFirst start) (Extent.byteOrFirst stop)).toList

def readText (pos : ν) : Except WireError Text := do
  let header ← buf.follow pos
  let length ← buf.readNat 4 header
  let start := header + Extent.ofInt 4
  return Utf8.decode (buf.clipped start (start + Extent.ofInt length))

def vectorStart (pos : ν) : Except WireError ν := do
  let header ← buf.follow pos
  return header + Extent.ofInt 4

def vectorLength (pos : ν) : Except WireError Nat := do
  let header ← buf.follow pos
  buf.readNat 4 header

def identifierLength : Nat := 4

def identifier (sized : Bool) : Text :=
  let start : Int := prefixSize sized + 4
  ⟨(buf.clipped start (start + identifierLength)).map fun byte => UInt16.ofNat byte.toNat⟩

def hasIdentifier (expected : Text) (sized : Bool) : Except WireError Bool :=
  if expected.length = identifierLength then .ok (buf.identifier sized == expected)
  else .error (.identifierLength expected)

end Buffer

end FlatSchema
