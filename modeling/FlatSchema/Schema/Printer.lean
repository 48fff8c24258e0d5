import FlatSchema.Number.Decimal
import FlatSchema.Schema
import FlatSchema.Text.Quoted

/-!
# Canonical schema text

A schema is written item by item with a blank line between items.  Scalars
have their canonical names, members stand on lines of their own, and only
documentation comments are kept.  Reading the text again gives the same items.
-/

namespace FlatSchema

/-- How canonical text is laid out: the indentation of members and the line ending. -/
structure PrintStyle where
  indent : String
  lineEnding : String
deriving DecidableEq, Repr

def PrintStyle.standard : PrintStyle := ⟨"  ", "\n"⟩

def TypeExpr.print : TypeExpr → String
  | .scalar kind _ => kind.name
  | .string _ => "string"
  | .vector elem _ => "[" ++ elem.print ++ "]"
  | .named name _ => name

def Double.printLiteral (num : Double) : String :=
  if num.isNaN then "nan"
  else if num.isInfinite then if num.isNegative then "-inf" else "inf"
  else if num.isZero && num.isNegative then "-0.0"
  else
    let plain := num.toText
    if plain.toList.any fun char => char = '.' || char = 'e' then plain
    else plain ++ ".0"

def LiteralValue.print : LiteralValue → String
  | .int v => toString v
  | .float v => v.printLiteral
  | .bool v => if v then "true" else "false"
  | .string v => Quoted.quote v
  | .name word => word

def Attribute.print (raw : Attribute) : String :=
  match raw.value with
  | some lit => raw.name ++ ": " ++ lit.value.print
  | none => raw.name

def printAttributes (attrs : List Attribute) : String :=
  if attrs.isEmpty then ""
  else " (" ++ ", ".intercalate (attrs.map Attribute.print) ++ ")"

def printDoc (indent : String) (doc : List String) : List String :=
  doc.map fun line => if line.isEmpty then indent ++ "///" else indent ++ "/// " ++ line

def Field.print (indent : String) (f : Field) : List String :=
  let fallback :=
    match f.default with
    | some lit => " = " ++ lit.value.print
    | none => ""
  printDoc indent f.doc ++
    [indent ++ f.name ++ ": " ++ f.type.print ++ fallback ++
      printAttributes f.attributes ++ ";"]

def EnumValue.print (indent : String) (v : EnumValue) : List String :=
  let num :=
    match v.value with
    | some num => " = " ++ toString num
    | none => ""
  printDoc indent v.doc ++ [indent ++ v.name ++ num ++ ","]

def Variant.print (indent : String) (alt : Variant) : List String :=
  printDoc indent alt.doc ++ [indent ++ alt.typeName ++ ","]

def Method.print (indent : String) (method : Method) : List String :=
  printDoc indent method.doc ++
    [indent ++ method.name ++ "(" ++ method.requestType ++ "): " ++ method.responseType ++
      printAttributes method.attributes ++ ";"]

def Decl.printHead (dec : Decl) : String :=
  let attrs := printAttributes dec.attributes
  match dec.body with
  | .enum base _ =>
    "enum " ++ dec.name ++ " : " ++ base.print ++ attrs ++ " \x7b"
  | .union _ => "union " ++ dec.name ++ attrs ++ " \x7b"
  | .struct _ => "struct " ++ dec.name ++ attrs ++ " \x7b"
  | .table _ => "table " ++ dec.name ++ attrs ++ " \x7b"
  | .service _ => "rpc_service " ++ dec.name ++ attrs ++ " \x7b"

def DeclBody.print (indent : String) : DeclBody → List String
  | .enum _ vs => vs.flatMap (EnumValue.print indent)
  | .union alts => alts.flatMap (Variant.print indent)
  | .struct fs => fs.flatMap (Field.print indent)
  | .table fs => fs.flatMap (Field.print indent)
  | .service methods => methods.flatMap (Method.print indent)

def Decl.print (indent : String) (dec : Decl) : List String :=
  printDoc "" dec.doc ++ dec.printHead :: dec.body.print indent ++
    ["\x7d"]

def Item.print (indent : String) : Item → List String
  | .includeFile path _ => ["include " ++ Quoted.quote path ++ ";"]
  | .enterScope ns _ =>
    if ns.isEmpty then ["namespace;"] else ["namespace " ++ ".".intercalate ns ++ ";"]
  | .declareAttribute name _ => ["attribute " ++ Quoted.quote name ++ ";"]
  | .rootType typeName _ _ => ["root_type " ++ typeName ++ ";"]
  | .fileIdentifier v _ => ["file_identifier " ++ Quoted.quote v ++ ";"]
  | .fileExtension v _ => ["file_extension " ++ Quoted.quote v ++ ";"]
  | .declaration decl => decl.print indent

def printItems (style : PrintStyle) (items : List Item) : String :=
  if items.isEmpty then ""
  else
    (style.lineEnding ++ style.lineEnding).intercalate
        (items.map fun item => style.lineEnding.intercalate (item.print style.indent)) ++
      style.lineEnding

def Schema.print (style : PrintStyle) (sch : Schema) : String :=
  printItems style sch.items

end FlatSchema
