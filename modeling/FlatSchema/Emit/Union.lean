import FlatSchema.Check.Union
import FlatSchema.Emit.Draft

/-!
# Unions in generated modules

A union becomes an enumeration of its tags, a type of its values as plain
objects and one of its accessors, and functions that encode and unpack it.
-/

namespace FlatSchema.Emit

def unionObjects (name : String) (alts : List Catalog.Variant) : Draft :=
  .line (exported "type" name ++ " =") :: alts.zipIdx.map fun (alt, i) =>
    let stop := if i + 1 = alts.length then ";" else ""
    .line ("  | \x7b type: " ++ quoted alt.name ++ "; value: " ++ entryName "" alt.table "Object" ++
      s!" \x7d{stop}")

def unionModule (e : Catalog.Entry) (ty : Catalog.UnionType) : Draft :=
  let name := e.name
  let accessors : Code :=
    List.intercalate (" | " : Code) (ty.variants.map fun alt => entryName "" alt.table "")
  let encoders := ty.variants.flatMap fun alt =>
    [.line ("case " ++ quoted alt.name ++ ":"),
      .line ("  return " ++ entryName "encode" alt.table "" ++ "(builder, value.value);")]
  let unpackers := ty.variants.map fun alt =>
    .line ("if (accessor instanceof " ++ entryName "" alt.table "" ++ ") return \x7b type: " ++
      quoted alt.name ++ ", value: accessor.unpack() \x7d;")
  .doc e.doc ::
    braces (exported "enum" (Check.discriminantName name))
      (ty.discriminants.map fun v => .line s!"{v.name} = {v.value},") ++
    .blank :: unionObjects name ty.variants ++
    [.blank, .line (exported "type" (name ++ "Accessor") ++ " = " ++ accessors ++ ";"), .blank] ++
    braces (exported "function" ("encode" ++ name) ++ "(builder: " ++ runtime "Builder" ++
        s!", value: {name}): number")
      (braces "switch (value.type)" encoders) ++
    .blank :: braces (exported "function" ("unpack" ++ name) ++
        s!"(accessor: {name}Accessor | null): {name} | null")
      (unpackers ++ [.line "return null;"]) ++
    [.blank]

end FlatSchema.Emit
