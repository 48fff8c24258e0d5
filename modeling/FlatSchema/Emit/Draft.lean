import FlatSchema.Catalog.Layout
import FlatSchema.Catalog.Member
import FlatSchema.Catalog.WriteOrder
import FlatSchema.Emit.Artifact

/-!
# Drafts of generated modules

A module is drafted before it is written.  Its draft lists the lines of the
module with the blocks they stand in.  What the code of a line exports, quotes
or takes from elsewhere is a part of its own, so that a draft tells what the
module refers to.
-/

namespace FlatSchema.Emit

/-- A part of the code of a line. -/
inductive Part where
  | code (text : String)
  /-- The head of a declaration that other modules can import. -/
  | exported (keyword name : String)
  /-- The name of an entry between two additions. -/
  | entry (pre : String) (id : Nat) (post : String)
  | runtime (name : String)
  | quoted (text : Text)
deriving DecidableEq, Inhabited, Repr

abbrev Code := List Part

instance : Coe String Code := ⟨fun text => [.code text]⟩

def exported (keyword name : String) : Code :=
  [.exported keyword name]

def entryName (pre : String) (id : Nat) (post : String) : Code :=
  [.entry pre id post]

def runtime (name : String) : Code :=
  [.runtime name]

def quoted (text : Text) : Code :=
  [.quoted text]

inductive Element where
  | line (code : Code)
  | blank
  | doc (lines : List String)
  | indent
  | dedent
  /-- What cannot be written. -/
  | missing (err : EmitError)
deriving DecidableEq, Inhabited, Repr

abbrev Draft := List Element

def Element.parts : Element → List Part
  | .line code => code
  | _ => []

def enclose (opening : Code) (closing : String) (body : Draft) : Draft :=
  .line opening :: .indent :: body ++ [.dedent, .line closing]

def bracesThen (head : Code) (tail : String) (body : Draft) : Draft :=
  enclose (head ++ " \x7b") s!"\x7d{tail}" body

def braces (head : Code) (body : Draft) : Draft :=
  bracesThen head "" body

/-- The layouts of structs as they are written out. -/
abbrev Layouts := List (Nat × StructLayout Double)

def Layouts.of (layouts : Layouts) (id : Nat) : StructLayout Double :=
  (layouts.lookup id).getD default

def scalarType (kind : ScalarKind) : String :=
  if kind = .bool then "boolean" else if kind.isWide then "bigint" else "number"

def methodName (kind : ScalarKind) : String :=
  match kind.name.toList with
  | first :: rest => String.ofList (first.toUpper :: rest)
  | [] => ""

variable (c : Catalog)

def objectType : FieldType → Code
  | .scalar kind => scalarType kind
  | .string => "string"
  | .vector elem => objectType elem ++ "[]"
  | .named id =>
    match c.body? id with
    | some (.struct _) | some (.table _) => entryName "" id "Object"
    | _ => entryName "" id ""

/-- The number of the struct that a type names. -/
def struct? : FieldType → Option Nat
  | .named id =>
    match c.body? id with
    | some (.struct _) => some id
    | _ => none
  | _ => none

end FlatSchema.Emit
