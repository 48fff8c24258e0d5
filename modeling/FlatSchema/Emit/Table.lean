import FlatSchema.Emit.Struct
import FlatSchema.Number.Decimal

/-!
# Tables in generated modules

A table becomes a class of accessors that look fields up through the vtable, an
interface of plain objects, and functions that encode, serialize and
deserialize it.  The root table also gets constants for the file identifier
and the file extension.
-/

namespace FlatSchema.Emit

def numberLiteral (v : Double) : String :=
  if v.isZero && v.isNegative then "-0" else v.toText

def boolLiteral (v : Bool) : String :=
  if v then "true" else "false"

def defaultLiteral (kind : ScalarKind) : DefaultValue → String
  | .int v =>
    if kind = .bool then boolLiteral (v != 0)
    else if kind.isWide then s!"{v}n"
    else toString v
  | .float v => numberLiteral v
  | .bool v => boolLiteral v
  | .absent => if kind = .bool then "false" else if kind.isWide then "0n" else "0"

/-- How the elements of a vector are read: their size as it is written, their type, the
expression that reads one at a place, and whether it gives an accessor. -/
structure ElementReader where
  size : String
  type : Code
  read : String → Code
  isAccessor : Bool

/-- The accessors of a field, and the expression of its plain value. -/
structure FieldAccess where
  accessors : Draft
  value : Code

variable (c : Catalog) (layouts : Layouts)

/-- The reader of strings, and of elements that no vector holds. -/
def stringReader : ElementReader :=
  ⟨"4", "string", fun place => s!"this.bb.readString({place})", false⟩

def elementReader (elem : FieldType) : ElementReader :=
  match c.scalar? elem, elem with
  | some kind, _ =>
    ⟨toString kind.size, objectType c elem, fun place => s!"this.bb.read{methodName kind}({place})",
      false⟩
  | none, .named id =>
    match c.body? id with
    | some (.struct _) =>
      ⟨(layouts.of id).size.toText, entryName "" id "",
        fun place => "new " ++ entryName "" id "" ++ s!"(this.bb, {place})", true⟩
    | some (.table _) =>
      ⟨"4", entryName "" id "", fun place => "new " ++ entryName "" id "" ++
        s!"(this.bb, this.bb.indirect({place}))", true⟩
    | _ => stringReader
  | none, _ => stringReader

def lookup (slot : Nat) : String :=
  s!"const o = this.bb.fieldOffset(this.bbPos, {Catalog.slotOffset slot});"

def accessor (head : Code) (slot : Nat) (body : Draft) : Draft :=
  braces head (.line (lookup slot) :: body)

def vectorAccess (name : String) (slot : Nat) (elem : FieldType) : FieldAccess :=
  let reader := elementReader c layouts elem
  let indexed := reader.read s!"this.bb.vectorStart(this.bbPos + o) + index * {reader.size}"
  let next := reader.read s!"start + i * {reader.size}"
  let unpack := if reader.isAccessor then "?.map((v) => v.unpack()) ?? null" else ""
  ⟨accessor (s!"{name}(index: number): " ++ reader.type ++ " | null") slot
      [.line ("return o ? " ++ indexed ++ " : null;")] ++
    .blank :: accessor s!"{name}Length(): number" slot
      [.line "return o ? this.bb.vectorLength(this.bbPos + o) : 0;"] ++
    .blank :: accessor (s!"{name}Array(): " ++ reader.type ++ "[] | null") slot
      ([.line "if (!o) return null;", .line "const start = this.bb.vectorStart(this.bbPos + o);",
          .line ("const out: " ++ reader.type ++ "[] = [];")] ++
        braces "for (let i = 0, n = this.bb.vectorLength(this.bbPos + o); i < n; i++)"
          [.line ("out.push(" ++ next ++ ");")] ++
        [.line "return out;"]),
    s!"this.{name}Array(){unpack}"⟩

def unionAccess (name : String) (slot typeSlot id : Nat) (union : Catalog.UnionType) :
    FieldAccess :=
  let tagType := entryName "" id "Type"
  let cases := union.variants.flatMap fun alt =>
    [.line ("case " ++ tagType ++ s!".{alt.name}:"),
      .line ("  return new " ++ entryName "" alt.table "" ++ "(this.bb, pos);")]
  ⟨accessor (s!"{name}Type(): " ++ tagType) typeSlot
      [.line "return o ? this.bb.readUint8(this.bbPos + o) : 0;"] ++
    .blank :: accessor (s!"{name}(): " ++ entryName "" id "Accessor" ++ " | null") slot
      ([.line "if (!o) return null;", .line "const pos = this.bb.unionTable(this.bbPos + o);"] ++
        braces s!"switch (this.{name}Type())"
          (cases ++ [.line "default:", .line "  return null;"])),
    entryName "unpack" id "" ++ s!"(this.{name}())"⟩

/-- A field that holds an object of a named type, given the expression that finds it. -/
def objectAccess (name : String) (slot id : Nat) (place : String) : FieldAccess :=
  ⟨accessor (s!"{name}(): " ++ entryName "" id "" ++ " | null") slot
      [.line ("return o ? new " ++ entryName "" id "" ++ s!"(this.bb, {place}) : null;")],
    s!"this.{name}()?.unpack() ?? null"⟩

def fieldAccess (t : Catalog.Entry) (f : Catalog.TableField) : FieldAccess :=
  let name := MemberName.ofField f.name
  let none : FieldAccess := ⟨[.missing (.fieldType t.fullName f.name)], []⟩
  match c.scalar? f.type, f.type with
  | some kind, _ =>
    let read := s!"this.bb.read{methodName kind}(this.bbPos + o)"
    ⟨accessor (s!"{name}(): " ++ objectType c f.type) f.slot
        [.line s!"return o ? {read} : {defaultLiteral kind f.default};"],
      s!"this.{name}()"⟩
  | _, .scalar _ => none
  | _, .string =>
    ⟨accessor s!"{name}(): string | null" f.slot
        [.line "return o ? this.bb.readString(this.bbPos + o) : null;"],
      s!"this.{name}()"⟩
  | _, .vector elem => vectorAccess c layouts name f.slot elem
  | _, .named id =>
    match c.body? id, f.typeSlot with
    | some (.struct _), _ => objectAccess name f.slot id "this.bbPos + o"
    | some (.table _), _ => objectAccess name f.slot id "this.bb.indirect(this.bbPos + o)"
    | some (.union union), some typeSlot => unionAccess name f.slot typeSlot id union
    | some _, _ => none
    | Option.none, _ => ⟨[.missing (.unknownEntry id)], []⟩

def isOutOfLine : FieldType → Bool
  | .scalar _ => false
  | .string => true
  | .vector _ => true
  | .named id =>
    match c.body? id with
    | some (.table _) | some (.union _) => true
    | _ => false

def vectorExpr (elem : FieldType) (v : String) : Code :=
  match c.scalar? elem, elem with
  | some kind, _ => "builder.createScalarVector(" ++ quoted kind.name ++ s!", {v})"
  | none, .string => s!"builder.createOffsetVector({v}.map((v) => builder.createString(v)))"
  | none, .named id =>
    match c.body? id with
    | some (.struct _) =>
      let layout := layouts.of id
      s!"builder.createStructVector({layout.size.toText}, {layout.alignment.toText}, {v}, " ++
        entryName "write" id "" ++ ")"
    | some (.table _) =>
      s!"builder.createOffsetVector({v}.map((v) => " ++ entryName "encode" id "" ++ "(builder, v)))"
    | _ => "0"
  | none, _ => "0"

def childExpr (ty : FieldType) (v : String) : Code :=
  match ty with
  | .string => s!"builder.createString({v})"
  | .vector elem => vectorExpr c layouts elem v
  | .named id => entryName "encode" id "" ++ s!"(builder, {v})"
  | .scalar _ => "0"

def tableClass (e : Catalog.Entry) (live : List Catalog.TableField) : Draft :=
  let name := e.name
  let accessors := live.flatMap fun f =>
    .blank :: .doc f.doc :: (fieldAccess c layouts e f).accessors
  let members := live.map fun f =>
    .line (s!"{MemberName.ofField f.name}: " ++ (fieldAccess c layouts e f).value ++ ",")
  braces (exported "class" name)
    ([.line ("constructor(readonly bb: " ++ runtime "ByteBuffer" ++
          ", readonly bbPos: number) \x7b\x7d"), .blank] ++
      braces ("static fromBytes(bytes: Uint8Array, options: " ++ runtime "DeserializeOptions" ++
          s!" = \x7b\x7d): {name}")
        [.line ("const bb = new " ++ runtime "ByteBuffer" ++ "(bytes);"),
          .line s!"return new {name}(bb, bb.rootTable(options.sizePrefixed ?? false));"] ++
      accessors ++
      .blank :: braces s!"unpack(): {name}Object" (bracesThen "return" ";" members))

def tableInterface (name : String) (live : List Catalog.TableField) : Draft :=
  braces (exported "interface" (name ++ "Object")) <| live.map fun f =>
    let orNull := if (c.scalar? f.type).isSome then "" else " | null"
    .line (s!"{MemberName.ofField f.name}?: " ++ objectType c f.type ++ s!"{orNull};")

def slotWrite (write : Catalog.SlotWrite) : Element :=
  let f := write.field
  let v := s!"value.{MemberName.ofField f.name}"
  match write.part, f.type with
  | .type, .named id =>
    .line (s!"builder.addFieldUint8({write.slot}, {v} != null ? " ++ entryName "" id "Type" ++
      s!"[{v}.type] : 0, 0);")
  | _, _ =>
    match c.scalar? f.type with
    | some kind =>
      let fallback := defaultLiteral kind f.default
      .line s!"builder.addField{methodName kind}({write.slot}, {v} ?? {fallback}, {fallback});"
    | none =>
      match struct? c f.type with
      | some id =>
        .line (s!"if ({v} != null) builder.addFieldStruct({write.slot}, " ++
          entryName "write" id "" ++ s!"(builder, {v}));")
      | none => .line s!"builder.addFieldOffset({write.slot}, off{f.slot});"

def tableEncoder (name : String) (t : Catalog.TableType) (live : List Catalog.TableField) : Draft :=
  let children := (live.filter fun f => isOutOfLine c f.type).map fun f =>
    let v := s!"value.{MemberName.ofField f.name}"
    .line (s!"const off{f.slot} = {v} != null ? " ++ childExpr c layouts f.type v ++ " : 0;")
  let required := (t.fields.filter fun f => f.required).map fun f =>
    .line (s!"builder.requiredField(end, {Catalog.slotOffset f.slot}, " ++ quoted f.name ++ ");")
  braces (exported "function" ("encode" ++ name) ++ "(builder: " ++ runtime "Builder" ++
      s!", value: {name}Object): number")
    (children ++ .line s!"builder.startTable({t.slotCount});" ::
      (t.writeOrder c).map (slotWrite c) ++ .line "const end = builder.endTable();" ::
      required ++ [.line "return end;"])

def tableSerializers (name ident : String) : Draft :=
  braces (exported "function" ("serialize" ++ name) ++ s!"(value: {name}Object, options: " ++
      runtime "SerializeOptions" ++ " = \x7b\x7d): Uint8Array")
    [.line ("const builder = new " ++ runtime "Builder" ++ "(options);"),
      .line s!"builder.finish(encode{name}(builder, value), {ident}, options.sizePrefix ?? false);",
      .line "return builder.asUint8Array();"] ++
  .blank :: braces (exported "function" ("deserialize" ++ name) ++
      "(bytes: Uint8Array, options: " ++ runtime "DeserializeOptions" ++
      s!" = \x7b\x7d): {name}Object")
    [.line s!"return {name}.fromBytes(bytes, options).unpack();"] ++
  [.blank]

def textConstant (name : String) (v : Text) : Element :=
  .line (exported "const" name ++ " = " ++ quoted v ++ ";")

def tableModule (e : Catalog.Entry) (t : Catalog.TableType) : Draft :=
  let name := e.name
  let live := t.fields.filter fun f => !f.deprecated
  let isRoot := c.rootType == some e.id
  let fileIdentifier := if isRoot then c.fileIdentifier else none
  let fileExtension := if isRoot then c.fileExtension else none
  let constant := MemberName.upperSnakeCase name
  let identName := constant ++ "_FILE_IDENTIFIER"
  let hasIdentifier := fileIdentifier.toList.flatMap fun _ =>
    braces (exported "function" (MemberName.camelCase name ++ "BufferHasIdentifier") ++
        "(bytes: Uint8Array): boolean")
      [.line ("return new " ++ runtime "ByteBuffer" ++ s!"(bytes).hasIdentifier({identName});")] ++
    [.blank]
  fileIdentifier.toList.map (textConstant identName) ++
    fileExtension.toList.map (textConstant (constant ++ "_FILE_EXTENSION")) ++
    .blank :: .doc e.doc :: tableClass c layouts e live ++
    .blank :: .doc e.doc :: tableInterface c name live ++
    .blank :: tableEncoder c layouts name t live ++
    .blank :: tableSerializers name (if fileIdentifier.isSome then identName else "undefined") ++
    hasIdentifier

end FlatSchema.Emit
