import FlatSchema.Wire.Buffer

/-!
# Building buffers

A builder writes a buffer back to front: each write lands right before what
has been written.  Offsets count from the end of the buffer and stay valid when
the buffer grows.  The room for bytes doubles whenever it runs out; a write
that was given no room fails, yet moves the position.

A table is begun with its number of slots.  Each slot notes the offset of the
field that was written for it.  At the end of a table its vtable is written,
or shared with an earlier table that has the same one.

Sizes and offsets are extents of either kind.  Writers of records count in
integers; with floating-point numbers each operation keeps to the same steps,
so zeros are written while fewer than asked for have been, references and
counts keep their low 32 bits, and a slot between two others is nobody's.
-/

namespace FlatSchema

/-- Bytes addressed from their end, with endless zeros before them. -/
structure Tape where
  bytes : List UInt8
  size : Nat
  size_eq : size = bytes.length
deriving DecidableEq, Repr

namespace Tape

def empty : Tape := ⟨[], 0, rfl⟩

instance : Inhabited Tape := ⟨empty⟩

variable (tape : Tape)

def last (distance : Nat) : List UInt8 :=
  List.replicate (distance - tape.size) 0 ++ tape.bytes.drop (tape.size - distance)

@[simp]
theorem length_last (distance : Nat) : (tape.last distance).length = distance := by
  simp only [last, List.length_append, List.length_replicate, List.length_drop]
  have := tape.size_eq
  omega

theorem drop_last (distance n : Nat) : (tape.last distance).drop n = tape.last (distance - n) := by
  by_cases inside : n ≤ distance
  · rw [last, last, List.drop_append, List.drop_replicate, List.drop_drop, List.length_replicate]
    congr 2 <;> omega
  · rw [List.drop_eq_nil_of_le (by rw [length_last]; omega),
      show distance - n = 0 by omega]
    exact (List.eq_nil_of_length_eq_zero (length_last tape 0)).symm

/-- Put bytes so that they end at a distance from the end, in the place of what stands there. -/
def place (distance : Nat) (more : List UInt8) : Tape where
  bytes := tape.bytes.take (tape.size - (distance + more.length)) ++ (more ++ tape.last distance)
  size := max tape.size (distance + more.length)
  size_eq := by
    simp only [List.length_append, List.length_take, length_last]
    have := tape.size_eq
    omega

theorem last_place (distance : Nat) (more : List UInt8) :
    (tape.place distance more).last distance = tape.last distance := by
  have front : (tape.bytes.take (tape.size - (distance + more.length))).length =
      tape.size - (distance + more.length) := by
    rw [List.length_take]
    have := tape.size_eq
    omega
  rw [last, place]
  simp only
  rw [show distance - max tape.size (distance + more.length) = 0 by omega,
    ← List.append_assoc, List.drop_append_of_le_length (by
      simp only [List.length_append, front]
      omega), List.drop_eq_nil_of_le (by
      simp only [List.length_append, front]
      omega)]
  simp

end Tape

structure Builder (ν : Type) where
  tape : Tape
  capacity : Nat
  /-- The free room.  It is negative after writes that had none. -/
  space : ν
  minAlign : ν
  /-- The slots of the table that was begun last, each with the offset of its field or zero. -/
  slots : Option (List ν)
  objectStart : ν
  vectorCount : ν
  nested : Bool
  finished : Bool
  vtables : List (List ν × ν)
  forceDefaults : Bool
  initialSpace : ν
deriving Inhabited, Repr

namespace Builder

variable {ν : Type}

def memory (b : Builder ν) : List UInt8 :=
  b.tape.last b.capacity

@[simp]
theorem length_memory (b : Builder ν) : b.memory.length = b.capacity :=
  Tape.length_last b.tape b.capacity

variable [Extent ν]

def start (room : ν) (force : Bool) : Builder ν :=
  let one : ν := Extent.ofInt 1
  let space := if Extent.less room one then one else room
  { tape := Tape.empty
    capacity := Extent.byteOrFirst space
    space := space
    minAlign := one
    slots := none
    objectStart := Extent.ofInt 0
    vectorCount := Extent.ofInt 0
    nested := false
    finished := false
    vtables := []
    forceDefaults := force
    initialSpace := space }

def start? (room : ν) (force : Bool) : Except WireError (Builder ν) := do
  let b := start room force
  let _ ← Buffer.room? b.space
  return b

def standardRoom : ν := Extent.ofInt 1024

variable (b : Builder ν)

def reset : Builder ν :=
  start b.initialSpace b.forceDefaults

def offset : ν :=
  Extent.ofInt b.capacity - b.space

@[simp]
theorem offset_start (room : Int) (force : Bool) : (start room force).offset = 0 := by
  simp only [offset, start, Extent.less_int, Extent.ofInt_int, Extent.byteOrFirst_int,
    decide_eq_true_eq]
  split <;> omega

def written : List UInt8 :=
  b.tape.last (b.capacity - Extent.byteOrFirst b.space)

theorem written_eq_drop : b.written = b.memory.drop (Extent.byteOrFirst b.space) := by
  rw [written, memory, Tape.drop_last]

/-- The bytes of the room from the position on, where a position before the room is counted from
its end. -/
def content : List UInt8 :=
  let start := match Extent.truncate? b.space with
    | some whole => if 0 ≤ whole then whole.toNat else (b.capacity + whole).toNat
    | none => 0
  b.tape.last (b.capacity - start)

/-- The distance from the end at which bytes end that begin at a position, if all of them lie
inside the room. -/
def distance? (pos : ν) (width : Nat) : Option Nat :=
  ((Extent.byte? pos).filter fun first => first + width ≤ b.capacity).map fun first =>
    b.capacity - (first + width)

/-- A room that is at least this large cannot double. -/
def growthLimit : Nat := 0x40000000

/-- Room and free room, doubled until a number of bytes is free or the room cannot double. -/
def grown (capacity : Nat) (space needed : ν) : Nat × ν :=
  if Extent.less space needed then
    if _h : 0 < capacity ∧ capacity < growthLimit then
      grown (2 * capacity) (space + Extent.ofInt capacity) needed
    else (capacity, space)
  else (capacity, space)
termination_by growthLimit - capacity

end Builder

abbrev Build (ν : Type) := ExceptT WireError (StateM (Builder ν))

namespace Build

variable {ν : Type} [Extent ν]

def offset : Build ν ν := do
  return (← get).offset

def reserve (needed : ν) : Build ν Unit := do
  let b ← get
  let (capacity, space) := Builder.grown b.capacity b.space needed
  set { b with capacity, space }
  if Extent.less space needed then throw .tooLarge

/-- Write bytes.  Without room for all of them the write fails, though the position moves. -/
def put (bytes : List UInt8) : Build ν Unit := do
  let b ← get
  let space := b.space - Extent.ofInt bytes.length
  match b.distance? space bytes.length with
  | some distance => set { b with space, tape := b.tape.place distance bytes }
  | none => do
      set { b with space }
      throw .outOfRange

def replace (offset : ν) (bytes : List UInt8) : Build ν Unit := do
  let b ← get
  match b.distance? (Extent.ofInt b.capacity - offset) bytes.length with
  | some distance => set { b with tape := b.tape.place distance bytes }
  | none => throw .outOfRange

/-- Write a number of zeros one at a time, up to the first that has no room. -/
def zeros : Nat → Build ν Unit
  | 0 => return ()
  | n + 1 => do
      put [0]
      zeros n

/-- How many zeros are written until as many as asked for have been.  No room takes more than one
beyond its size, so larger numbers are cut. -/
def zeroCount (capacity : Nat) (n : ν) : Nat :=
  match Extent.ceiling? n with
  | some whole => min whole.toNat (capacity + 2)
  | none => if Extent.less (Extent.ofInt 0) n then capacity + 2 else 0

def pad (n : ν) : Build ν Unit := do
  zeros (zeroCount (← get).capacity n)

/-- The zeros needed so that an offset, after some more bytes, is a multiple of an alignment that
is a power of two; without a positive number of them none are written. -/
def padding (offset extra align : ν) : Int :=
  (-Extent.word (offset + extra) &&& Extent.word (align - Extent.ofInt 1)).toInt

/-- Make room for a value of a size, aligned to that size after some more bytes have been
written. -/
def prep (size extra : ν) : Build ν Unit := do
  modify fun b =>
    if Extent.less b.minAlign size then { b with minAlign := size } else b
  let n := padding (← offset) extra size
  reserve (Extent.ofInt n + size + extra)
  zeros n.toNat

def addWord (width : Nat) (v : ν) : Build ν Unit := do
  prep (Extent.ofInt width) (Extent.ofInt 0)
  put (littleEndian width (Extent.word v).toNat)

def writeScalar (kind : ScalarKind) (v : ScalarValue) : Build ν Unit :=
  match kind.encode? v with
  | some bytes => put bytes
  | none => throw .notInteger

def addScalar (kind : ScalarKind) (v : ScalarValue) : Build ν Unit := do
  prep (Extent.ofInt kind.size) (Extent.ofInt 0)
  writeScalar kind v

def addOffset (target : ν) : Build ν Unit := do
  prep (Extent.ofInt 4) (Extent.ofInt 0)
  let offset ← offset
  if Extent.less offset target then throw .offsetAhead
  put (littleEndian 4 (Extent.word (offset - target + Extent.ofInt 4)).toNat)

def assertNotNested : Build ν Unit := do
  if (← get).nested then throw .objectOpen

/-- The number of slots that an extent stands for: a natural number of 32 bits. -/
def slotCount? (n : ν) : Option Nat :=
  ((Extent.integer? n).filter fun whole => 0 ≤ whole ∧ whole < 4294967296).map Int.toNat

def startTable (n : ν) : Build ν Unit := do
  assertNotNested
  match slotCount? n with
  | some n =>
    modify fun b =>
      { b with
        slots := some (List.replicate n (Extent.ofInt 0))
        nested := true
        objectStart := b.offset }
  | none => throw .slotCount

def isOutside (i : ν) (n : Nat) : Bool :=
  Extent.less i (Extent.ofInt 0) ||
    Extent.same i i && !Extent.less i (Extent.ofInt n)

def slot (i : ν) : Build ν Unit := do
  let b ← get
  match b.slots with
  | none => throw .fieldOutsideTable
  | some slots =>
    if isOutside i slots.length then
      throw (.slotOutside (Extent.toDouble i) slots.length)
    match Extent.integer? i with
    | some whole => set { b with slots := some (slots.set whole.toNat b.offset) }
    | none => return ()

def addFieldScalar (i : ν) (kind : ScalarKind) (v fallback : ScalarValue) :
    Build ν Unit := do
  if !(← get).forceDefaults && v.same fallback then return ()
  else do
    addScalar kind v
    slot i

def addFieldOffset (i target : ν) : Build ν Unit := do
  if Extent.same target (Extent.ofInt 0) then return ()
  else do
    addOffset target
    slot i

def addFieldStruct (i target : ν) : Build ν Unit := do
  if !Extent.same target (← offset) then throw .structNotInline
  slot i

def usedSlots (slots : List ν) : List ν :=
  (slots.reverse.dropWhile fun f => Extent.same f (Extent.ofInt 0)).reverse

/-- The words of a vtable: its size, the size of the table and the distance of each field from
the start of the table. -/
def vtableWords (object objectStart : ν) (slots : List ν) : List ν :=
  let used := usedSlots slots
  let zero : ν := Extent.ofInt 0
  Extent.ofInt (2 * (used.length + 2)) :: (object - objectStart) ::
    used.map fun f => if Extent.same f zero then zero else object - f

def vtable (words : List ν) : Build ν ν := do
  match (← get).vtables.lookup words with
  | some vtable => return vtable
  | none => do
      words.reverse.forM (addWord 2)
      let vtable ← offset
      modify fun b => { b with vtables := b.vtables ++ [(words, vtable)] }
      return vtable

/-- End a table; an equal vtable that is already there is shared. -/
def endTable : Build ν ν := do
  match (← get).nested, (← get).slots with
  | true, some slots => do
      addWord 4 (Extent.ofInt 0)
      let object ← offset
      let vtable ← vtable (vtableWords object (← get).objectStart slots)
      replace object (littleEndian 4 (Extent.word (vtable - object)).toNat)
      modify fun b => { b with slots := none, nested := false }
      return object
  | _, _ => throw .tableNotOpen

def requiredField (t e : ν) (name : Option Text) : Build ν Unit := do
  let b ← get
  let buf := Buffer.ofList b.memory
  match buf.fieldOffset (Extent.ofInt b.capacity - t) e with
  | .ok 0 => throw (.missingField (name.filter fun name => !name.isEmpty))
  | .ok _ => return ()
  | .error err => throw err

/-- Begin a vector of a number of elements of a size and an alignment.  The elements are then
written, the last one first. -/
def startVector (elementSize n align : ν) : Build ν Unit := do
  assertNotNested
  modify fun b => { b with vectorCount := n }
  prep (Extent.ofInt 4) (elementSize * n)
  prep align (elementSize * n)
  modify fun b => { b with nested := true }

def endVector : Build ν ν := do
  if (← get).nested then do
    modify fun b => { b with nested := false }
    addWord 4 (← get).vectorCount
    offset
  else throw .vectorNotOpen

def createString (content : List UInt8) : Build ν ν := do
  addScalar .uint8 (.number Double.zero)
  startVector (Extent.ofInt 1) (Extent.ofInt content.length) (Extent.ofInt 1)
  put content
  endVector

def createScalarVector (kind : ScalarKind) (vs : List ScalarValue) : Build ν ν := do
  startVector (Extent.ofInt kind.size) (Extent.ofInt vs.length) (Extent.ofInt kind.size)
  vs.reverse.forM (writeScalar kind)
  endVector

def createOffsetVector (targets : List ν) : Build ν ν := do
  startVector (Extent.ofInt 4) (Extent.ofInt targets.length) (Extent.ofInt 4)
  targets.reverse.forM addOffset
  endVector

def createStructVector (elementSize align : ν) (items : List (Build ν Unit)) :
    Build ν ν := do
  startVector elementSize (Extent.ofInt items.length) align
  items.reverse.forM id
  endVector

def putIdentifier (ident : Text) : Build ν Unit :=
  put (ident.units.map fun unit => UInt8.ofNat (unit.toNat % 256))

def finish (root : ν) (ident : Option Text) (sizePrefix : Bool) : Build ν Unit := do
  let prefixSize := Buffer.prefixSize sizePrefix
  match ident with
  | some ident =>
    if ident.length ≠ Buffer.identifierLength then
      throw (.identifierLength ident)
    prep (← get).minAlign (Extent.ofInt (4 + Buffer.identifierLength + prefixSize))
    putIdentifier ident
  | none => pure ()
  prep (← get).minAlign (Extent.ofInt (4 + prefixSize))
  addOffset root
  if sizePrefix then addWord 4 (← offset)
  modify fun b => { b with finished := true }

def bytes : Build ν (List UInt8) := do
  let b ← get
  if b.finished then return b.content else throw .unfinished

end Build

end FlatSchema
