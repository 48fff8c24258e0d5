import FlatSchema.Schema.Parser

/-!
# The grammar of schemas

The grammar is stated as relations between stretches of tokens and what they
denote, one for each kind of construct.  Documentation is no part of it: the
relations speak of tokens without documentation and give trees without
documentation and without places.

A schema file is a sequence of items and lone semicolons.  Directives and
members end with a semicolon, the values of an enumeration and the variants of
a union are divided by commas, and a comma may follow the last of them.
-/

namespace FlatSchema

/-! ## Trees without places and documentation -/

/-- A type without its places. -/
def TypeExpr.unplaced : TypeExpr → TypeExpr
  | .scalar kind _ => .scalar kind default
  | .string _ => .string default
  | .vector elem _ => .vector elem.unplaced default
  | .named name _ => .named name default

def Literal.unplaced (lit : Literal) : Literal :=
  { lit with span := default }

def Attribute.unplaced (own : Attribute) : Attribute :=
  { own with value := own.value.map Literal.unplaced, span := default }

def EnumValue.unplaced (v : EnumValue) : EnumValue :=
  { v with span := default }

def Variant.unplaced (alt : Variant) : Variant :=
  { alt with span := default }

def Field.unplaced (f : Field) : Field :=
  { f with
    type := f.type.unplaced
    default := f.default.map Literal.unplaced
    attributes := f.attributes.map Attribute.unplaced
    span := Inhabited.default }

def Method.unplaced (method : Method) : Method :=
  { method with
    attributes := method.attributes.map Attribute.unplaced
    span := default }

def DeclBody.unplaced : DeclBody → DeclBody
  | .enum base vs => .enum base.unplaced (vs.map EnumValue.unplaced)
  | .union alts => .union (alts.map Variant.unplaced)
  | .struct fs => .struct (fs.map Field.unplaced)
  | .table fs => .table (fs.map Field.unplaced)
  | .service methods => .service (methods.map Method.unplaced)

def Decl.unplaced (dec : Decl) : Decl :=
  { dec with
    attributes := dec.attributes.map Attribute.unplaced
    body := dec.body.unplaced
    span := default }

/-- An item without its places. -/
def Item.unplaced : Item → Item
  | .includeFile path _ => .includeFile path default
  | .enterScope ns _ => .enterScope ns default
  | .declareAttribute name _ => .declareAttribute name default
  | .rootType typeName ns _ => .rootType typeName ns default
  | .fileIdentifier v _ => .fileIdentifier v default
  | .fileExtension v _ => .fileExtension v default
  | .declaration decl => .declaration decl.unplaced

def EnumValue.undocumented (v : EnumValue) : EnumValue :=
  { v with doc := [] }

def Variant.undocumented (alt : Variant) : Variant :=
  { alt with doc := [] }

def Field.undocumented (f : Field) : Field :=
  { f with doc := [] }

def Method.undocumented (method : Method) : Method :=
  { method with doc := [] }

def DeclBody.undocumented : DeclBody → DeclBody
  | .enum base vs => .enum base (vs.map EnumValue.undocumented)
  | .union alts => .union (alts.map Variant.undocumented)
  | .struct fs => .struct (fs.map Field.undocumented)
  | .table fs => .table (fs.map Field.undocumented)
  | .service methods => .service (methods.map Method.undocumented)

def Decl.undocumented (dec : Decl) : Decl :=
  { dec with doc := [], body := dec.body.undocumented }

/-- An item without its documentation. -/
def Item.undocumented : Item → Item
  | .declaration decl => .declaration decl.undocumented
  | other => other

/-- An item as the grammar derives it: without its places and its documentation. -/
def Item.plain (item : Item) : Item :=
  item.unplaced.undocumented

theorem Item.scopeAfter_plain (ns : List String) (item : Item) :
    item.plain.scopeAfter ns = item.scopeAfter ns := by
  cases item <;> rfl

/-- The documentation inside the braces of a declaration. -/
def DeclBody.docLines : DeclBody → List String
  | .enum _ vs => vs.flatMap EnumValue.doc
  | .union alts => alts.flatMap Variant.doc
  | .struct fs => fs.flatMap Field.doc
  | .table fs => fs.flatMap Field.doc
  | .service methods => methods.flatMap Method.doc

def Decl.docLines (dec : Decl) : List String :=
  dec.doc ++ dec.body.docLines

/-- All lines of documentation in an item. -/
def Item.docLines : Item → List String
  | .declaration decl => decl.docLines
  | _ => []

/-- The tokens that the grammar speaks of. -/
def withoutDocs (toks : List Token) : List Token :=
  toks.filter fun tok => tok.kind ≠ .doc

namespace Grammar

/-! ## Names, types and literals -/

/-- A name of one or more parts with points between them. -/
inductive Path : List Token → List String → Prop where
  | last (ident : name.kind = .ident) : Path [name] [name.text]
  | cons {toks : List Token} {parts : List String} (ident : name.kind = .ident)
      (dvd : point.isPunct '.') (rest : Path toks parts) :
      Path (name :: point :: toks) (name.text :: parts)

/-- A type: a name, or a type in brackets. -/
inductive TypeOf : List Token → TypeExpr → Prop where
  | named (path : Path toks parts) :
      TypeOf toks (Parser.namedType (".".intercalate parts) default)
  | vector {toks : List Token} {elem : TypeExpr} (opens : lead.isPunct '[')
      (inner : TypeOf toks elem) (closes : closing.isPunct ']') :
      TypeOf (lead :: (toks ++ [closing])) (.vector elem default)

/-- The words for numbers, in lower case. -/
def numberWords : List (String × Double) :=
  [("nan", .nan), ("inf", .infinity false), ("infinity", .infinity false)]

/-- What may follow a sign: numerals and the words for numbers, in any case. -/
inductive NumberOf : Token → LiteralValue → Prop where
  | int {v : Nat} (numeral : tok.kind = .int v) : NumberOf tok (.int v)
  | float (numeral : tok.kind = .float v) : NumberOf tok (.float v)
  | word {v : Double} (ident : tok.kind = .ident)
      (spelled : (tok.text.toLower, v) ∈ numberWords) : NumberOf tok (.float v)

/-- The number of the other sign. -/
def negated : LiteralValue → LiteralValue
  | .int v => .int (-v)
  | .float v => .float v.negate
  | other => other

/-- A literal; only numbers take a sign. -/
inductive LiteralOf : List Token → LiteralValue → Prop where
  | number (number : NumberOf tok v) : LiteralOf [tok] v
  | plus {sign tok : Token} {v : LiteralValue} (signed : sign.isPunct '+')
      (number : NumberOf tok v) : LiteralOf [sign, tok] v
  | minus {sign tok : Token} {v : LiteralValue} (signed : sign.isPunct '-')
      (number : NumberOf tok v) : LiteralOf [sign, tok] (negated v)
  | bool
      (word : tok.kind = .keyword (if truth then .trueWord else .falseWord)) :
      LiteralOf [tok] (.bool truth)
  | string (quoted : tok.kind = .string v) : LiteralOf [tok] (.string v)
  | name (ident : tok.kind = .ident)
      (plain : tok.text.toLower ∉ numberWords.map Prod.fst) : LiteralOf [tok] (.name tok.text)

/-! ## Lists -/

section

variable {α : Type} (Element : List Token → α → Prop)

/-- Elements one after another. -/
inductive Repeated : List Token → List α → Prop where
  | nil : Repeated [] []
  | cons {v : α} {vs : List α} (elem : Element hd v)
      (others : Repeated rest vs) : Repeated (hd ++ rest) (v :: vs)

/-- One or more elements with commas between them. -/
inductive Separated : List Token → List α → Prop where
  | last (elem : Element toks v) : Separated toks [v]
  | cons {comma : Token} {v : α} {vs : List α} (elem : Element hd v)
      (dvd : comma.isPunct ',') (others : Separated rest vs) :
      Separated (hd ++ comma :: rest) (v :: vs)

/-- Members between braces. -/
inductive Members : List Token → List α → Prop where
  | braced {toks : List Token} {vs : List α} (opens : lead.isPunct '{')
      (members : Repeated Element toks vs) (closes : closing.isPunct '}') :
      Members (lead :: (toks ++ [closing])) vs

/-- Entries between braces with commas between them and perhaps behind the last. -/
inductive Entries : List Token → List α → Prop where
  | empty (opens : lead.isPunct '{') (closes : closing.isPunct '}') :
      Entries [lead, closing] []
  | listed {toks : List Token} {vs : List α} (opens : lead.isPunct '{')
      (es : Separated Element toks vs) (closes : closing.isPunct '}') :
      Entries (lead :: (toks ++ [closing])) vs
  | trailing {toks : List Token} {vs : List α}
      (opens : lead.isPunct '{') (es : Separated Element toks vs) (dvd : comma.isPunct ',')
      (closes : closing.isPunct '}') : Entries (lead :: (toks ++ [comma, closing])) vs

end

section

variable {toks : List Token}

variable {α β : Type} {Element : List Token → β → Prop} {view : α → β}

variable {vs : List α}

/-- Elements that a relation describes by a view of them give a list of the views. -/
theorem Repeated.map (repeated : Repeated (fun used v => Element used (view v)) toks vs) :
    Repeated Element toks (vs.map view) := by
  induction repeated with
  | nil => exact .nil
  | cons elem _ ih => exact .cons elem ih

theorem Separated.map (separated : Separated (fun used v => Element used (view v)) toks vs) :
    Separated Element toks (vs.map view) := by
  induction separated with
  | last elem => exact .last elem
  | cons elem dvd _ ih => exact .cons elem dvd ih

theorem Members.map (members : Members (fun used v => Element used (view v)) toks vs) :
    Members Element toks (vs.map view) := by
  rcases members with ⟨opens, repeated, closes⟩
  exact .braced opens repeated.map closes

theorem Entries.map (es : Entries (fun used v => Element used (view v)) toks vs) :
    Entries Element toks (vs.map view) := by
  cases es with
  | empty opens closes => exact .empty opens closes
  | listed opens separated closes => exact .listed opens separated.map closes
  | trailing opens separated dvd closes => exact .trailing opens separated.map dvd closes

theorem Entries.cons {Element : List Token → α → Prop}
    (elem : Element hd v) (dvd : comma.isPunct ',') (others : Entries Element (lead :: rest) vs) :
    Entries Element (lead :: (hd ++ comma :: rest)) (v :: vs) := by
  cases others with
  | empty opens closes => exact .trailing opens (.last elem) dvd closes
  | @listed _ closing toks _ opens separated closes =>
    have longer := Entries.listed opens (.cons elem dvd separated) closes
    rwa [List.append_assoc] at longer
  | @trailing _ last closing toks _ opens separated ends closes =>
    have longer := Entries.trailing opens (.cons elem dvd separated) ends closes
    rwa [List.append_assoc] at longer

end

/-! ## Members -/

/-- The tokens that may name fields and attributes: reserved words as well as identifiers. -/
def MayName (tok : Token) : Prop :=
  tok.kind = .ident ∨ ∃ kw, tok.kind = .keyword kw

/-- An attribute; its name may be a reserved word. -/
inductive AttributeOf : List Token → Attribute → Prop where
  | plain (named : MayName name) : AttributeOf [name] ⟨name.text, none, default⟩
  | valued {toks : List Token} {v : LiteralValue} (named : MayName name)
      (dvd : colon.isPunct ':') (lit : LiteralOf toks v) :
      AttributeOf (name :: colon :: toks) ⟨name.text, some ⟨v, default⟩, default⟩

/-- An optional list of attributes, which may be empty. -/
inductive AttributesOf : List Token → List Attribute → Prop where
  | absent : AttributesOf [] []
  | empty (opens : lead.isPunct '(') (closes : closing.isPunct ')') :
      AttributesOf [lead, closing] []
  | listed {toks : List Token} {attrs : List Attribute}
      (opens : lead.isPunct '(') (es : Separated AttributeOf toks attrs)
      (closes : closing.isPunct ')') : AttributesOf (lead :: (toks ++ [closing])) attrs

/-- An optional default. -/
inductive DefaultOf : List Token → Option Literal → Prop where
  | absent : DefaultOf [] none
  | given {toks : List Token} {v : LiteralValue} (gives : equals.isPunct '=')
      (lit : LiteralOf toks v) : DefaultOf (equals :: toks) (some ⟨v, default⟩)

/-- A field; its name may be a reserved word. -/
inductive FieldOf : List Token → Field → Prop where
  | member {typeToks defaultTokens attrToks : List Token}
      {ty : TypeExpr} {given : Option Literal} {attrs : List Attribute} (named : MayName name)
      (dvd : colon.isPunct ':') (typed : TypeOf typeToks ty)
      (defaulted : DefaultOf defaultTokens given) (attributed : AttributesOf attrToks attrs)
      (ends : semi.isPunct ';') :
      FieldOf (name :: colon :: (typeToks ++ (defaultTokens ++ (attrToks ++ [semi]))))
        ⟨name.text, ty, given, attrs, [], default⟩

/-- A method with its request and its response. -/
inductive MethodOf : List Token → Method → Prop where
  | member
      {requestTokens responseTokens attrToks : List Token}
      {request response : List String} {attrs : List Attribute} (named : name.kind = .ident)
      (opens : lead.isPunct '(') (asks : Path requestTokens request) (closes : closing.isPunct ')')
      (dvd : colon.isPunct ':') (answers : Path responseTokens response)
      (attributed : AttributesOf attrToks attrs) (ends : semi.isPunct ';') :
      MethodOf
        (name :: lead ::
          (requestTokens ++ closing :: colon :: (responseTokens ++ (attrToks ++ [semi]))))
        ⟨name.text, ".".intercalate request, ".".intercalate response, attrs, [], default⟩

/-- A value of an enumeration; its number is an integer literal. -/
inductive EnumValueOf : List Token → EnumValue → Prop where
  | plain (named : name.kind = .ident) :
      EnumValueOf [name] ⟨name.text, none, [], default⟩
  | numbered {toks : List Token} {num : Int} (named : name.kind = .ident)
      (gives : equals.isPunct '=') (lit : LiteralOf toks (.int num)) :
      EnumValueOf (name :: equals :: toks) ⟨name.text, some num, [], default⟩

/-- A variant of a union. -/
inductive VariantOf : List Token → Variant → Prop where
  | named (path : Path toks parts) :
      VariantOf toks ⟨".".intercalate parts, [], default⟩

/-! ## Items -/

/-- The bodies that follow the name and the attributes of a declaration. -/
inductive BodyOf : Keyword → List Token → DeclBody → Prop where
  | union (es : Entries VariantOf toks alts) :
      BodyOf .unionWord toks (.union alts)
  | struct (members : Members FieldOf toks fs) :
      BodyOf .structWord toks (.struct fs)
  | table (members : Members FieldOf toks fs) :
      BodyOf .tableWord toks (.table fs)
  | service (members : Members MethodOf toks methods) :
      BodyOf .serviceWord toks (.service methods)

/-- A declaration in a scope. -/
inductive DeclOf (ns : List String) : List Token → Decl → Prop where
  | enum {typeToks attrToks bodyTokens : List Token}
      {base : TypeExpr} {attrs : List Attribute} {vs : List EnumValue}
      (begins : word.kind = .keyword .enumWord) (named : name.kind = .ident)
      (dvd : colon.isPunct ':') (typed : TypeOf typeToks base)
      (attributed : AttributesOf attrToks attrs) (es : Entries EnumValueOf bodyTokens vs) :
      DeclOf ns (word :: name :: colon :: (typeToks ++ (attrToks ++ bodyTokens)))
        ⟨name.text, ns, [], attrs, .enum base vs, default⟩
  | other {attrToks bodyTokens : List Token} {kw : Keyword}
      {attrs : List Attribute} {body : DeclBody} (begins : word.kind = .keyword kw)
      (named : name.kind = .ident) (attributed : AttributesOf attrToks attrs)
      (bodied : BodyOf kw bodyTokens body) :
      DeclOf ns (word :: name :: (attrToks ++ bodyTokens)) ⟨name.text, ns, [], attrs, body, default⟩

/-- The directives that hold a string, and the items that they are. -/
def stringDirective? : Keyword → Option (Text → Item)
  | .includeWord => some (.includeFile · default)
  | .fileIdentifierWord => some (.fileIdentifier · default)
  | .fileExtensionWord => some (.fileExtension · default)
  | .attributeWord => some (.declareAttribute · default)
  | _ => none

/-- A directive in a scope. -/
inductive DirectiveOf (ns : List String) : List Token → Item → Prop where
  | leaveScope (begins : word.kind = .keyword .namespaceWord)
      (ends : semi.isPunct ';') : DirectiveOf ns [word, semi] (.enterScope [] default)
  | enterScope {toks : List Token} {parts : List String}
      (begins : word.kind = .keyword .namespaceWord) (path : Path toks parts)
      (ends : semi.isPunct ';') :
      DirectiveOf ns (word :: (toks ++ [semi])) (.enterScope parts default)
  | quoted {kw : Keyword} {text : Text} {item : Text → Item}
      (begins : word.kind = .keyword kw) (directs : stringDirective? kw = some item)
      (quoted : v.kind = .string text) (ends : semi.isPunct ';') :
      DirectiveOf ns [word, v, semi] (item text)
  | unquoted (begins : word.kind = .keyword .attributeWord)
      (named : name.kind = .ident) (ends : semi.isPunct ';') :
      DirectiveOf ns [word, name, semi] (.declareAttribute (Text.ofString name.text) default)
  | rootType {toks : List Token} {parts : List String}
      (begins : word.kind = .keyword .rootTypeWord) (path : Path toks parts)
      (ends : semi.isPunct ';') :
      DirectiveOf ns (word :: (toks ++ [semi])) (.rootType (".".intercalate parts) ns default)

/-- An item in a scope. -/
inductive ItemOf (ns : List String) : List Token → Item → Prop where
  | directive (directs : DirectiveOf ns toks item) :
      ItemOf ns toks item
  | declaration (declares : DeclOf ns toks declaration) :
      ItemOf ns toks (.declaration declaration)

/-- Items and lone semicolons, each item in the scope that those before it leave. -/
inductive ItemsOf : List String → List Token → List Item → Prop where
  | nil : ItemsOf ns [] []
  | semicolon {semicolon : Token} {toks : List Token} {items : List Item}
      (lone : semicolon.isPunct ';') (others : ItemsOf ns toks items) :
      ItemsOf ns (semicolon :: toks) items
  | cons {hd rest : List Token} {item : Item} {items : List Item}
      (means : ItemOf ns hd item) (others : ItemsOf (item.scopeAfter ns) rest items) :
      ItemsOf ns (hd ++ rest) (item :: items)

/-- The sentences of the grammar: items up to the end of the file. -/
inductive Sentence : List Token → List Item → Prop where
  | file (listed : ItemsOf [] toks items)
      (ends : eof.isEof) : Sentence (toks ++ [eof]) items

end Grammar

end FlatSchema
