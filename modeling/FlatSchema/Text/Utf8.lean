import FlatSchema.Text.Units

/-!
# UTF-8

Encoding writes a lone surrogate as U+FFFD.  Decoding accepts every byte
sequence: a well-formed sequence gives its character, each maximal part that
begins a well-formed sequence without completing it gives one U+FFFD, and so
does a byte that begins none.  A byte order mark at the very start is dropped.

The decoder keeps, between bytes, how many continuation bytes it still expects
and the range of the next one; the range excludes overlong forms, surrogates
and values above U+10FFFF as soon as they can be told.
-/

namespace FlatSchema.Utf8

def encodeChar (char : Char) : List UInt8 :=
  let code := char.toNat
  if code < 0x80 then
    [UInt8.ofNat code]
  else if code < 0x800 then
    [UInt8.ofNat (0xC0 + code / 0x40), UInt8.ofNat (0x80 + code % 0x40)]
  else if code < 0x10000 then
    [UInt8.ofNat (0xE0 + code / 0x1000), UInt8.ofNat (0x80 + code / 0x40 % 0x40),
      UInt8.ofNat (0x80 + code % 0x40)]
  else
    [UInt8.ofNat (0xF0 + code / 0x40000), UInt8.ofNat (0x80 + code / 0x1000 % 0x40),
      UInt8.ofNat (0x80 + code / 0x40 % 0x40), UInt8.ofNat (0x80 + code % 0x40)]

def encode (text : Text) : List UInt8 :=
  text.pieces.flatMap fun piece => encodeChar piece.charOrReplacement

/-- A sequence that has begun: the bytes still expected, the range of the next, the bits so far. -/
structure Partial where
  missing : Nat
  lower : Nat
  upper : Nat
  code : Nat
deriving DecidableEq, Repr

inductive Start where
  | complete (char : Char)
  | continued (s : Partial)
  | invalid
deriving DecidableEq, Repr

def start (byte : UInt8) : Start :=
  let v := byte.toNat
  if v ≤ 0x7F then .complete (Char.ofNat v)
  else if v < 0xC2 then .invalid
  else if v ≤ 0xDF then .continued ⟨1, 0x80, 0xBF, v % 0x20⟩
  else if v ≤ 0xEF then
    .continued
      ⟨2, if v = 0xE0 then 0xA0 else 0x80, if v = 0xED then 0x9F else 0xBF,
        v % 0x10⟩
  else if v ≤ 0xF4 then
    .continued
      ⟨3, if v = 0xF0 then 0x90 else 0x80, if v = 0xF4 then 0x8F else 0xBF,
        v % 0x08⟩
  else .invalid

def decodeChars : Option Partial → List UInt8 → List Char
  | none, [] => []
  | some _, [] => ['\uFFFD']
  | none, byte :: rest =>
    match start byte with
    | .complete char => char :: decodeChars none rest
    | .continued s => decodeChars (some s) rest
    | .invalid => '\uFFFD' :: decodeChars none rest
  | some s, byte :: rest =>
    if s.lower ≤ byte.toNat ∧ byte.toNat ≤ s.upper then
      let code := s.code * 0x40 + byte.toNat % 0x40
      if s.missing = 1 then
        Char.ofNat code :: decodeChars none rest
      else
        decodeChars (some ⟨s.missing - 1, 0x80, 0xBF, code⟩) rest
    else
      match start byte with
      | .complete char => '\uFFFD' :: char :: decodeChars none rest
      | .continued next => '\uFFFD' :: decodeChars (some next) rest
      | .invalid => '\uFFFD' :: '\uFFFD' :: decodeChars none rest

def dropMark : List Char → List Char
  | [] => []
  | first :: rest => if first = '\uFEFF' then rest else first :: rest

/-- The characters of a byte sequence without a byte order mark; malformed parts become U+FFFD. -/
def decodeString (bs : List UInt8) : String :=
  String.ofList (dropMark (decodeChars none bs))

/-- The text of a byte sequence without a byte order mark; malformed parts become U+FFFD. -/
def decode (bs : List UInt8) : Text :=
  Text.ofString (decodeString bs)

/-- The characters of a byte sequence, a byte order mark included; malformed parts become
U+FFFD. -/
def decodeFile (bs : List UInt8) : String :=
  String.ofList (decodeChars none bs)

end FlatSchema.Utf8
