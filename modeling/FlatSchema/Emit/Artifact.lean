import FlatSchema.Schema.Printer

/-!
# Generated files

What generators take and give: the targets, their options and the files they
make.  Catalogs that come from checked schemas give every generator what it
needs; for others a generator says what is missing.
-/

namespace FlatSchema

inductive Target where
  | ts
  | fbs
deriving DecidableEq, Inhabited, Repr

namespace Target

def name : Target → String
  | .ts => "ts"
  | .fbs => "fbs"

def all : List Target :=
  [.ts, .fbs]

def ofName? (name : String) : Option Target :=
  all.find? fun target => target.name == name

end Target

structure EmitOptions where
  runtimeImport : String
  rootModule : String
  style : PrintStyle
deriving Repr

def EmitOptions.standard : EmitOptions :=
  ⟨"fbsgen/runtime", "root", .standard⟩

instance : Inhabited EmitOptions := ⟨.standard⟩

structure Artifact where
  target : Target
  path : Text
  text : Text
deriving DecidableEq, Inhabited, Repr

inductive EmitError where
  | unknownEntry (id : Nat)
  | fieldType (t f : String)
deriving DecidableEq, Inhabited, Repr

def EmitError.message : EmitError → String
  | .unknownEntry id => s!"Unknown declaration id {id}"
  | .fieldType t f => s!"Unsupported field type in {t}.{f}"

end FlatSchema
