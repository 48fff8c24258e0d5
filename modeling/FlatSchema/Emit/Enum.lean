import FlatSchema.Emit.Draft

/-!
# Enumerations in generated modules

An enumeration of up to 32 bits becomes an enumeration, one of 64 bits an
object of constants.  Beside it stands a function that gives the name of a
value.
-/

namespace FlatSchema.Emit

def enumValues (vs : List Catalog.EnumValue) (raw : Catalog.EnumValue → String) : Draft :=
  vs.flatMap fun v => [.doc v.doc, .line (raw v)]

def enumDecl (name : String) (ty : Catalog.EnumType) : Draft :=
  if ty.underlying.isWide then
    bracesThen (exported "const" name ++ " =") " as const;"
        (enumValues ty.values fun v => s!"{v.name}: {v.value}n,") ++
      [.line (exported "type" name ++ " = bigint;")]
  else
    braces (exported "enum" name) (enumValues ty.values fun v => s!"{v.name} = {v.value},")

def enumModule (e : Catalog.Entry) (ty : Catalog.EnumType) : Draft :=
  let wide := ty.underlying.isWide
  let valueType := if wide then "bigint" else "number"
  let suffix := if wide then "n" else ""
  let cases := ty.values.flatMap fun v =>
    [.line s!"case {v.value}{suffix}:", .line ("  return " ++ quoted v.name ++ ";")]
  .doc e.doc :: enumDecl e.name ty ++ .blank ::
    braces (exported "function" ("nameOf" ++ e.name) ++
        s!"(value: {valueType}): string | undefined")
      (braces "switch (value)" (cases ++ [.line "default:", .line "  return undefined;"])) ++
    [.blank]

end FlatSchema.Emit
