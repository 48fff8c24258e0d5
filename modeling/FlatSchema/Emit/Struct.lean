import FlatSchema.Emit.Draft

/-!
# Structs in generated modules

A struct becomes a class of accessors that read its fields at fixed places, an
interface of plain objects, and a function that writes it in place from its
last field to its first.
-/

namespace FlatSchema.Emit

variable (c : Catalog)

def inlineMethod (ty : FieldType) : String :=
  methodName ((c.scalar? ty).getD .uint8)

def structAccessor (f : Catalog.StructField) (placement : Placement Double) : Draft :=
  let name := MemberName.ofField f.name
  let place := if placement.offset.isZero then "this.bbPos"
    else s!"this.bbPos + {placement.offset.toText}"
  .blank :: .doc f.doc ::
    match struct? c f.type with
    | some id =>
      braces (s!"{name}(): " ++ entryName "" id "")
        [.line ("return new " ++ entryName "" id "" ++ s!"(this.bb, {place});")]
    | none =>
      braces (s!"{name}(): " ++ objectType c f.type)
        [.line s!"return this.bb.read{inlineMethod c f.type}({place});"]

def structClass (name : String) (ty : Catalog.StructType) (layout : StructLayout Double) : Draft :=
  let accessors := (ty.fields.zip layout.fields).flatMap fun (f, placement) =>
    structAccessor c f placement
  let members := ty.fields.map fun f =>
    let mem := MemberName.ofField f.name
    let unpack := if (struct? c f.type).isSome then ".unpack()" else ""
    .line s!"{mem}: this.{mem}(){unpack},"
  braces (exported "class" name)
    (.line ("constructor(readonly bb: " ++ runtime "ByteBuffer" ++
        ", readonly bbPos: number) \x7b\x7d") ::
      accessors ++ .blank :: braces s!"unpack(): {name}Object" (bracesThen "return" ";" members))

def structFieldWrite (f : Catalog.StructField) (placement : Placement Double) : Draft :=
  let pad := if Double.zero.below placement.padding then
    [.line s!"builder.pad({placement.padding.toText});"] else []
  let mem := MemberName.ofField f.name
  pad ++
    match struct? c f.type with
    | some id => [.line (entryName "write" id "" ++ s!"(builder, value.{mem});")]
    | none => [.line s!"builder.write{inlineMethod c f.type}(value.{mem});"]

def structModule (layouts : Layouts) (e : Catalog.Entry) (ty : Catalog.StructType) : Draft :=
  let name := e.name
  let layout := layouts.of e.id
  let writes := (ty.fields.zip layout.fields).reverse.flatMap fun (f, placement) =>
    structFieldWrite c f placement
  .doc e.doc :: structClass c name ty layout ++
    .blank :: braces (exported "interface" (name ++ "Object"))
      (ty.fields.map fun f =>
        .line (s!"{MemberName.ofField f.name}: " ++ objectType c f.type ++ ";")) ++
    .blank :: braces (exported "function" ("write" ++ name) ++ "(builder: " ++ runtime "Builder" ++
        s!", value: {name}Object): number")
      (.line s!"builder.prep({layout.alignment.toText}, {layout.size.toText});" :: writes ++
        [.line "return builder.offset();"]) ++
    [.blank]

end FlatSchema.Emit
