import FlatSchema.Number.Decimal
import FlatSchema.Text.Units

/-!
# Failures of the wire format

What can go wrong when bytes are read or written.  A failure belongs to one of
three classes: a number lies outside its range, a value is not of the type or
shape that is asked for, or an operation comes at the wrong time.
-/

namespace FlatSchema

inductive FailureClass where
  | range
  | type
  | usage
deriving DecidableEq, Inhabited, Repr

inductive WireError where
  | outOfRange
  | notInteger
  | tooLarge
  | identifierLength (ident : Text)
  | offsetAhead
  | objectOpen
  | fieldOutsideTable
  | slotOutside (slot : Double) (n : Nat)
  | slotCount
  | structNotInline
  | tableNotOpen
  | vectorNotOpen
  | missingField (name : Option Text)
  | unfinished
deriving DecidableEq, Inhabited, Repr

namespace WireError

def failureClass : WireError → FailureClass
  | .outOfRange | .notInteger | .tooLarge | .identifierLength _ | .offsetAhead
  | .slotOutside _ _ | .slotCount => .range
  | .missingField _ => .type
  | _ => .usage

def message? : WireError → Option Text
  | .outOfRange => none
  | .notInteger => none
  | .slotCount => none
  | .tooLarge => some "FlatBuffers cannot grow beyond 2GB"
  | .identifierLength ident =>
    some (Text.ofString "File identifier must be 4 characters: \"" ++ ident ++
      Text.ofString "\"")
  | .offsetAhead => some "Offset refers to data not yet written"
  | .objectOpen => some "Builder: objects cannot be created while a table or vector is open"
  | .fieldOutsideTable => some "Builder: field added outside a table"
  | .slotOutside slot n =>
    some s!"Builder: slot {slot.toText} is outside the table ({n} slots)"
  | .structNotInline =>
    some "Builder: structs must be written inline, right before addFieldStruct"
  | .tableNotOpen => some "Builder: endTable without startTable"
  | .vectorNotOpen => some "Builder: endVector without startVector"
  | .missingField none => some "Missing required field"
  | .missingField (some name) =>
    some (Text.ofString "Missing required field \"" ++ name ++ Text.ofString "\"")
  | .unfinished => some "Builder: asUint8Array before finish"

end WireError

end FlatSchema
