import FlatSchema.Text.Alphabet
import FlatSchema.Text.LetterCase
import FlatSchema.Text.Units

/-!
# Collation

The dictionary order in which reports are sorted.  Texts are first compared by
the places of their characters in the alphabet, in which a letter, its capital
and its accented forms share a place.  Only texts that agree throughout are
told apart by accents, and only those that agree in accents too by the shape
of their letters, small letters first.  At each stage the first difference
decides.
-/

namespace FlatSchema.Collation

/-- The shape of a letter: small or capital, whether it is written joined to another, or a
variant. -/
inductive Shape where
  | small
  | joinedSmall
  | capital
  | joinedCapital
  | variant
deriving DecidableEq, Inhabited, Repr

namespace Shape

def rank : Shape → Nat
  | .small => 0
  | .joinedSmall => 1
  | .capital => 2
  | .joinedCapital => 3
  | .variant => 4

def alone (capital : Bool) : Shape :=
  if capital then .capital else .small

def joined (capital : Bool) : Shape :=
  if capital then .joinedCapital else .joinedSmall

end Shape

/-- What is compared of a text, piece by piece: a character at its place, or an accent. -/
inductive Element where
  | letter (place : Nat) (shape : Shape)
  | accent (rank : Nat)
deriving DecidableEq, Inhabited, Repr

namespace Element

def place? : Element → Option Nat
  | .letter place _ => some place
  | .accent _ => none

def accentWeight : Element → Nat
  | .letter _ _ => 0
  | .accent rank => rank + 1

def shapeWeight : Element → Nat
  | .letter _ shape => shape.rank
  | .accent _ => 0

end Element

/-- More than there are characters, so that every character has room between two places. -/
def spread : Nat := 0x200000

/-- The place of a small character.  Signs outside the alphabet stand before the currencies,
letters outside it at the end, and ideographs behind them, each by code point. -/
def place (char : Char) : Nat :=
  match Alphabet.characters.findIdx? (· == char) with
  | some i => (i + 1) * spread
  | none =>
    let code := char.toNat
    if Alphabet.isSign char then Alphabet.marks.length * spread + code
    else if Alphabet.isIdeograph char then (Alphabet.characters.length + 1) * spread + code
    else Alphabet.characters.length * spread + code

def unaccented? (char : Char) : List Char → Option Char
  | plain :: accented :: rest =>
    if accented = char then some plain else unaccented? char rest
  | _ => none

def split? (char : Char) : Option (Char × Char) :=
  Alphabet.accented.findSome? fun (accent, pairs) =>
    (unaccented? char pairs.toList).map fun plain => (plain, accent)

def small (char : Char) : Char :=
  match LetterCase.lower char with
  | [single] => single
  | _ => char

/-- The rank of the sign between joined letters, after all accents. -/
def joint : Nat := Alphabet.accents.length

def withJoint : List Element → List Element
  | first :: rest => first :: .accent joint :: rest
  | [] => []

/-- The elements of a character, with up to a number of accents taken off. -/
def elements : Nat → Bool → Char → List Element
  | 0, _, _ => []
  | fuel + 1, capital, given =>
    let char := (Alphabet.twins.lookup given).getD given
    let letter := small char
    let capital := capital || letter != char
    let pieces (text : String) :=
      text.toList.map fun piece => Element.letter (place piece) (Shape.joined capital)
    if Alphabet.isIgnored char then []
    else if Alphabet.characters.contains letter then
      [.letter (place letter) (Shape.alone capital)]
    else
      match Alphabet.accents.findIdx? (· == letter), split? letter, Alphabet.joined.lookup letter,
        Alphabet.ligatures.lookup letter, Alphabet.variants.lookup letter with
      | some rank, _, _, _, _ => [.accent rank]
      | _, some (plain, accent), _, _, _ =>
        elements fuel capital plain ++ elements fuel false accent
      | _, _, some text, _, _ => withJoint (pieces text)
      | _, _, _, some text, _ => pieces text
      | _, _, _, _, some plain => [.letter (place plain) .variant]
      | _, _, _, _, _ => [.letter (place letter) (Shape.alone capital)]

def compareWeights : List Nat → List Nat → Ordering
  | [], [] => .eq
  | [], _ :: _ => .lt
  | _ :: _, [] => .gt
  | left :: lefts, right :: rights =>
    match compare left right with
    | .eq => compareWeights lefts rights
    | decided => decided

def elementsOf (chars : List Char) : List Element :=
  chars.flatMap (elements 5 false)

def compareElements (left right : List Element) : Ordering :=
  (compareWeights (left.filterMap Element.place?) (right.filterMap Element.place?)).then
    ((compareWeights (left.map Element.accentWeight) (right.map Element.accentWeight)).then
      (compareWeights (left.map Element.shapeWeight) (right.map Element.shapeWeight)))

def compareTexts (left right : Text) : Ordering :=
  compareElements (elementsOf (left.pieces.map Text.Piece.charOrReplacement))
    (elementsOf (right.pieces.map Text.Piece.charOrReplacement))

end FlatSchema.Collation
