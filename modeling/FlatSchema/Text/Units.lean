/-!
# Text as UTF-16 code units

Columns and offsets in a schema source, the values of string literals and the
strings of a buffer are all measured in UTF-16 code units, and an escape in a
literal may denote one half of a surrogate pair.  `Text` is therefore a
sequence of code units; every `String` embeds into it.

`Text.pieces` reads a text as characters and lone surrogates, the view on
which quoting and UTF-8 encoding are defined.  Texts are ordered unit by unit.
-/

namespace FlatSchema

/-- A sequence of UTF-16 code units in which surrogates may stand alone. -/
structure Text where
  units : List UInt16
deriving DecidableEq, Inhabited, Repr

namespace Text

def width (char : Char) : Nat :=
  if char.toNat < 0x10000 then 1 else 2

def unitsOfChar (char : Char) : List UInt16 :=
  if char.toNat < 0x10000 then
    [UInt16.ofNat char.toNat]
  else
    [UInt16.ofNat (0xD800 + (char.toNat - 0x10000) / 0x400),
      UInt16.ofNat (0xDC00 + (char.toNat - 0x10000) % 0x400)]

@[simp]
theorem length_unitsOfChar (char : Char) : (unitsOfChar char).length = width char := by
  unfold unitsOfChar width
  split <;> rfl

def ofChars (chars : List Char) : Text :=
  ⟨chars.flatMap unitsOfChar⟩

def ofString (string : String) : Text :=
  ofChars string.toList

instance : Coe String Text := ⟨ofString⟩

instance : Append Text := ⟨fun left right => ⟨left.units ++ right.units⟩⟩

@[simp]
theorem units_append (left right : Text) : (left ++ right).units = left.units ++ right.units :=
  rfl

def empty : Text := ⟨[]⟩

variable (text : Text)

def length : Nat :=
  text.units.length

def isEmpty : Bool :=
  text.units.isEmpty

def ofInt (v : Int) : Text :=
  ofString (toString v)

def join (sep : Text) (texts : List Text) : Text :=
  ⟨List.intercalate sep.units (texts.map units)⟩

def isHighSurrogate (unit : UInt16) : Bool :=
  0xD800 ≤ unit && unit ≤ 0xDBFF

def isLowSurrogate (unit : UInt16) : Bool :=
  0xDC00 ≤ unit && unit ≤ 0xDFFF

def pairChar (high low : UInt16) : Char :=
  Char.ofNat (0x10000 + (high.toNat - 0xD800) * 0x400 + (low.toNat - 0xDC00))

/-- A part of a text: a character, or a surrogate without its other half. -/
inductive Piece where
  | scalar (char : Char)
  | lone (unit : UInt16)
deriving DecidableEq, Repr

def Piece.ofUnit (unit : UInt16) : Piece :=
  if isHighSurrogate unit || isLowSurrogate unit then
    .lone unit
  else
    .scalar (Char.ofNat unit.toNat)

def Piece.units : Piece → List UInt16
  | .scalar char => unitsOfChar char
  | .lone unit => [unit]

/-- Reads code units as characters and lone surrogates, pairs first. -/
def piecesOfUnits : List UInt16 → List Piece
  | [] => []
  | [unit] => [Piece.ofUnit unit]
  | high :: low :: rest =>
    if isHighSurrogate high && isLowSurrogate low then
      .scalar (pairChar high low) :: piecesOfUnits rest
    else
      Piece.ofUnit high :: piecesOfUnits (low :: rest)

def pieces : List Piece :=
  piecesOfUnits text.units

def Piece.char? : Piece → Option Char
  | .scalar char => some char
  | .lone _ => none

/-- The character that stands for a part outside of texts: U+FFFD for a lone surrogate. -/
def Piece.charOrReplacement : Piece → Char
  | .scalar char => char
  | .lone _ => '\uFFFD'

def toString? : Option String :=
  (text.pieces.mapM Piece.char?).map String.ofList

/-- Lexicographic comparison of code units; a shorter text comes before its extensions. -/
def unitsLe : List UInt16 → List UInt16 → Bool
  | [], _ => true
  | _ :: _, [] => false
  | left :: lefts, right :: rights =>
    if left < right then true
    else if right < left then false
    else unitsLe lefts rights

def le (left right : Text) : Bool :=
  unitsLe left.units right.units

def splitUnits (sep : UInt16) : List UInt16 → List (List UInt16)
  | [] => [[]]
  | unit :: rest =>
    if unit = sep then
      [] :: splitUnits sep rest
    else
      match splitUnits sep rest with
      | [] => [[unit]]
      | part :: parts => (unit :: part) :: parts

def splitOn (sep : UInt16) (text : Text) : List Text :=
  (splitUnits sep text.units).map Text.mk

end Text

end FlatSchema
