import FlatSchema.Number.Double
import FlatSchema.Scalar
import FlatSchema.Source

/-!
# Parsed schemas

The tree of one schema file: its items in source order, each with the span it
was read from.  A declaration is a head (name, scope, documentation and
attributes) and a body of one of five kinds.  The scope is the namespace in
effect where the declaration stands, outermost part first.

Names of types are kept as written, with their dots.
-/

namespace FlatSchema

inductive LiteralValue where
  | int (v : Int)
  | float (v : Double)
  | bool (v : Bool)
  | string (v : Text)
  | name (name : String)
deriving DecidableEq, Inhabited, Repr

structure Literal where
  value : LiteralValue
  span : Span
deriving DecidableEq, Inhabited, Repr

inductive TypeExpr where
  | scalar (kind : ScalarKind) (span : Span)
  | string (span : Span)
  | vector (elem : TypeExpr) (span : Span)
  | named (name : String) (span : Span)
deriving DecidableEq, Inhabited, Repr

def TypeExpr.span : TypeExpr → Span
  | .scalar _ span => span
  | .string span => span
  | .vector _ span => span
  | .named _ span => span

structure Attribute where
  name : String
  value : Option Literal
  span : Span
deriving DecidableEq, Inhabited, Repr

def Attribute.find? (attrs : List Attribute) (name : String) : Option Attribute :=
  attrs.find? fun cand => cand.name == name

structure EnumValue where
  name : String
  value : Option Int
  doc : List String
  span : Span
deriving DecidableEq, Inhabited, Repr

structure Variant where
  typeName : String
  doc : List String
  span : Span
deriving DecidableEq, Inhabited, Repr

structure Field where
  name : String
  type : TypeExpr
  default : Option Literal
  attributes : List Attribute
  doc : List String
  span : Span
deriving DecidableEq, Inhabited, Repr

structure Method where
  name : String
  requestType : String
  responseType : String
  attributes : List Attribute
  doc : List String
  span : Span
deriving DecidableEq, Inhabited, Repr

inductive DeclBody where
  | enum (base : TypeExpr) (vs : List EnumValue)
  | union (alts : List Variant)
  | struct (fs : List Field)
  | table (fs : List Field)
  | service (methods : List Method)
deriving DecidableEq, Inhabited, Repr

inductive DeclKind where
  | enum
  | union
  | struct
  | table
  | service
deriving DecidableEq, Inhabited, Repr

def DeclBody.kind : DeclBody → DeclKind
  | .enum .. => .enum
  | .union .. => .union
  | .struct .. => .struct
  | .table .. => .table
  | .service .. => .service

structure Decl where
  name : String
  scope : List String
  doc : List String
  attributes : List Attribute
  body : DeclBody
  span : Span
deriving DecidableEq, Inhabited, Repr

def Decl.kind (dec : Decl) : DeclKind :=
  dec.body.kind

inductive Item where
  | includeFile (path : Text) (span : Span)
  | enterScope (ns : List String) (span : Span)
  | declareAttribute (name : Text) (span : Span)
  | rootType (typeName : String) (ns : List String) (span : Span)
  | fileIdentifier (v : Text) (span : Span)
  | fileExtension (v : Text) (span : Span)
  | declaration (declaration : Decl)
deriving DecidableEq, Inhabited, Repr

def Item.scopeAfter (ns : List String) : Item → List String
  | .enterScope entered _ => entered
  | _ => ns

def Item.decl? : Item → Option Decl
  | .declaration decl => some decl
  | _ => none

structure Schema where
  path : Text
  items : List Item
  span : Span
deriving DecidableEq, Inhabited, Repr

def Schema.decls (sch : Schema) : List Decl :=
  sch.items.filterMap Item.decl?

end FlatSchema
