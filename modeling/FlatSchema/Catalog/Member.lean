import FlatSchema.Catalog
import FlatSchema.Text.LetterCase

/-!
# Names of generated members

Schemas write names with underscores or with humps.  Generated members have
lower camel case, constants upper case with underscores.  `tableMembers` lists
every member that a table field brings with it.
-/

namespace FlatSchema.MemberName

def isLower (char : Char) : Bool :=
  'a' ≤ char && char ≤ 'z'

def isUpper (char : Char) : Bool :=
  'A' ≤ char && char ≤ 'Z'

def isDigit (char : Char) : Bool :=
  '0' ≤ char && char ≤ '9'

def isWordChar (char : Char) : Bool :=
  isLower char || isUpper char || isDigit char

/-- Drop each run of underscores before a letter or digit and raise that character.  `held` counts
the underscores of the run that is being read. -/
def joinWords (held : Nat) : List Char → List Char
  | [] => List.replicate held '_'
  | char :: rest =>
    if char = '_' then joinWords (held + 1) rest
    else if held > 0 && isWordChar char then char.toUpper :: joinWords 0 rest
    else List.replicate held '_' ++ char :: joinWords 0 rest

/-- Lower the first character, unless it takes two units of 16 bits. -/
def lowerFirst : List Char → List Char
  | [] => []
  | first :: rest =>
    if first.toNat < 0x10000 then LetterCase.lower first ++ rest else first :: rest

def camelCase (name : String) : String :=
  String.ofList (lowerFirst (joinWords 0 name.toList))

/-- Divide a lower-case letter or digit from an upper-case letter after it. -/
def divideHumps : List Char → List Char
  | first :: snd :: rest =>
    if (isLower first || isDigit first) && isUpper snd then
      first :: '_' :: divideHumps (snd :: rest)
    else first :: divideHumps (snd :: rest)
  | short => short

/-- Divide a run of upper-case letters from a capitalised word after it. -/
def divideAcronyms : List Char → List Char
  | first :: snd :: third :: rest =>
    if isUpper first && isUpper snd && isLower third then
      first :: '_' :: divideAcronyms (snd :: third :: rest)
    else first :: divideAcronyms (snd :: third :: rest)
  | short => short

def upperSnakeCase (name : String) : String :=
  String.ofList ((divideAcronyms (divideHumps name.toList)).flatMap LetterCase.upper)

def reserved : List String :=
  ["bb", "bbPos", "unpack", "constructor"]

/-- The member of a field: its name in camel case, with an underscore after a reserved one. -/
def ofField (name : String) : String :=
  let camel := camelCase name
  if reserved.contains camel then camel ++ "_" else camel

/-- Every member that a table field brings with it: its own, the length and the array of a
vector, the type of a union. -/
def tableMembers (name : String) (ty : FieldType) (typeSlot : Option Nat) : List String :=
  let mem := ofField name
  match ty, typeSlot with
  | .vector _, _ => [mem, mem ++ "Length", mem ++ "Array"]
  | _, some _ => [mem, mem ++ "Type"]
  | _, none => [mem]

end FlatSchema.MemberName

namespace FlatSchema.Catalog

def TableField.members (f : TableField) : List String :=
  MemberName.tableMembers f.name f.type f.typeSlot

end FlatSchema.Catalog
