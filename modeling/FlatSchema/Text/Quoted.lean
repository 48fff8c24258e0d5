import FlatSchema.Text.Units

/-!
# Quoted text

The quoted form of a text stands between double quotes.  Quotes, backslashes
and control characters are escaped, and so is a lone surrogate, which has no
character of its own; every other character stands for itself.  The quoted
form is a `String` whatever the text holds.
-/

namespace FlatSchema.Quoted

def hexDigit (v : Nat) : Char :=
  if v < 10 then Char.ofNat (48 + v) else Char.ofNat (87 + v)

def hexDigits4 (v : Nat) : List Char :=
  [hexDigit (v / 0x1000 % 16), hexDigit (v / 0x100 % 16), hexDigit (v / 0x10 % 16),
    hexDigit (v % 16)]

def unitEscape (unit : Nat) : List Char :=
  '\\' :: 'u' :: hexDigits4 unit

def escapeChar (char : Char) : List Char :=
  if char = '"' then ['\\', '"']
  else if char = '\\' then ['\\', '\\']
  else if char = '\n' then ['\\', 'n']
  else if char = '\t' then ['\\', 't']
  else if char = '\r' then ['\\', 'r']
  else if char = '\x08' then ['\\', 'b']
  else if char = '\x0c' then ['\\', 'f']
  else if char.toNat < 0x20 then unitEscape char.toNat
  else [char]

def escapePiece : Text.Piece → List Char
  | .scalar char => escapeChar char
  | .lone unit => unitEscape unit.toNat

def chars (text : Text) : List Char :=
  '"' :: (text.pieces.flatMap escapePiece ++ ['"'])

def quote (text : Text) : String :=
  String.ofList (chars text)

end FlatSchema.Quoted
