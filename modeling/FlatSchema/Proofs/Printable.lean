import FlatSchema.Proofs.Grammar
import FlatSchema.Proofs.NumeralText

/-!
# Trees that can be written down

Not every tree is the tree of a text: names have to be words that are not
reserved, a line of documentation has to be one line, and a number that is not
one is the number that is read off its word.  `Printable` says so of every kind
of node, and whatever the grammar derives from the tokens of a text is
printable.
-/

namespace FlatSchema

open Grammar Lexer Double

/-! ## Nodes -/

/-- A word that is not reserved. -/
def IsName (name : String) : Prop :=
  IsWord name.toList ∧ Keyword.ofSpelling? name = none

/-- Names with points between them. -/
def IsPath (text : String) : Prop :=
  ∃ parts, parts ≠ [] ∧ (∀ part ∈ parts, IsName part) ∧ text = ".".intercalate parts

/-- One line of documentation. -/
def IsLine (line : String) : Prop :=
  '\n' ∉ line.toList ∧ '\r' ∉ line.toList

def TypeExpr.Printable : TypeExpr → Prop
  | .scalar _ _ => True
  | .string _ => True
  | .vector elem _ => elem.Printable
  | .named name _ => IsPath name ∧ Parser.namedType name default = .named name default

/-- The word of a literal is none for a number. -/
def LiteralValue.Printable : LiteralValue → Prop
  | .float v => v.Canonical
  | .name word => IsName word ∧ word.toLower ∉ numberWords.map Prod.fst
  | _ => True

structure Attribute.Printable (raw : Attribute) : Prop where
  name : IsWord raw.name.toList
  value : ∀ lit ∈ raw.value, lit.value.Printable

structure Field.Printable (f : Field) : Prop where
  name : IsWord f.name.toList
  type : f.type.Printable
  default : ∀ lit ∈ f.default, lit.value.Printable
  attributes : ∀ raw ∈ f.attributes, raw.Printable

structure Method.Printable (method : Method) : Prop where
  name : IsName method.name
  request : IsPath method.requestType
  response : IsPath method.responseType
  attributes : ∀ raw ∈ method.attributes, raw.Printable

def DeclBody.Printable : DeclBody → Prop
  | .enum base vs => base.Printable ∧ ∀ v ∈ vs, IsName v.name
  | .union alts => ∀ alt ∈ alts, IsPath alt.typeName
  | .struct fs => ∀ f ∈ fs, f.Printable
  | .table fs => ∀ f ∈ fs, f.Printable
  | .service methods => ∀ method ∈ methods, method.Printable

/-- A declaration that can be written where a scope is in effect. -/
structure Decl.Printable (ns : List String) (dec : Decl) : Prop where
  name : IsName dec.name
  scope_eq : dec.scope = ns
  attributes : ∀ raw ∈ dec.attributes, raw.Printable
  body : dec.body.Printable

/-- An item that can be written where a scope is in effect. -/
def Item.Printable (ns : List String) : Item → Prop
  | .enterScope parts _ => ∀ part ∈ parts, IsName part
  | .rootType typeName own _ => IsPath typeName ∧ own = ns
  | .declaration decl => decl.Printable ns
  | _ => True

/-- Items that can be written one after another, each in the scope that those before it leave. -/
inductive ItemsPrintable : List String → List Item → Prop where
  | nil {ns : List String} : ItemsPrintable ns []
  | cons {ns : List String} {item : Item} {items : List Item} (hd : item.Printable ns)
      (others : ItemsPrintable (item.scopeAfter ns) items) : ItemsPrintable ns (item :: items)

/-! ## Places and documentation do not matter -/

theorem TypeExpr.printable_of_unplaced {ty : TypeExpr} (prints : ty.unplaced.Printable) :
    ty.Printable := by
  induction ty with
  | scalar | string => trivial
  | vector elem span ih => exact ih prints
  | named name span => exact prints

theorem Attribute.printable_of_unplaced {raw : Attribute} (prints : raw.unplaced.Printable) :
    raw.Printable where
  name := prints.name
  value := by
    intro lit given
    exact prints.value lit.unplaced (Option.mem_map_of_mem Literal.unplaced given)

/-- Attributes without places are the attributes as far as printing goes. -/
theorem printable_of_map_unplaced {attrs : List Attribute}
    (prints : ∀ raw ∈ attrs.map Attribute.unplaced, raw.Printable) :
    ∀ raw ∈ attrs, raw.Printable := by
  intro raw mem
  exact Attribute.printable_of_unplaced (prints _ (List.mem_map_of_mem mem))

theorem Field.printable_of_plain {f : Field} (prints : f.unplaced.undocumented.Printable) :
    f.Printable where
  name := prints.name
  type := TypeExpr.printable_of_unplaced prints.type
  default := by
    intro lit given
    exact prints.default lit.unplaced (Option.mem_map_of_mem Literal.unplaced given)
  attributes := printable_of_map_unplaced prints.attributes

theorem Method.printable_of_plain {method : Method}
    (prints : method.unplaced.undocumented.Printable) : method.Printable where
  name := prints.name
  request := prints.request
  response := prints.response
  attributes := printable_of_map_unplaced prints.attributes

theorem DeclBody.printable_of_plain {body : DeclBody}
    (prints : body.unplaced.undocumented.Printable) :
    body.Printable := by
  cases body with
  | enum base vs =>
    refine ⟨TypeExpr.printable_of_unplaced prints.1, ?_⟩
    intro v mem
    exact prints.2 v.unplaced.undocumented (List.mem_map_of_mem (List.mem_map_of_mem mem))
  | union alts =>
    intro alt mem
    exact prints alt.unplaced.undocumented (List.mem_map_of_mem (List.mem_map_of_mem mem))
  | struct fs =>
    intro f mem
    exact Field.printable_of_plain (prints _ (List.mem_map_of_mem (List.mem_map_of_mem mem)))
  | table fs =>
    intro f mem
    exact Field.printable_of_plain (prints _ (List.mem_map_of_mem (List.mem_map_of_mem mem)))
  | service methods =>
    intro method mem
    exact Method.printable_of_plain (prints _ (List.mem_map_of_mem (List.mem_map_of_mem mem)))

theorem Item.printable_of_plain {item : Item} (prints : item.plain.Printable ns) :
    item.Printable ns := by
  cases item with
  | declaration decl =>
    exact ⟨prints.name, prints.scope_eq, printable_of_map_unplaced prints.attributes,
      DeclBody.printable_of_plain prints.body⟩
  | enterScope | rootType => exact prints
  | includeFile | declareAttribute | fileIdentifier | fileExtension => trivial

theorem itemsPrintable_of_plain
    (prints : ItemsPrintable ns (items.map Item.plain)) : ItemsPrintable ns items := by
  induction items generalizing ns with
  | nil => exact .nil
  | cons item items ih =>
    cases prints with
    | cons hd others =>
      rw [Item.scopeAfter_plain] at others
      exact .cons (Item.printable_of_plain hd) (ih others)

/-! ## Derived trees are printable -/

/-- Tokens that a text can have. -/
def AllLexed (toks : List Token) : Prop :=
  ∀ tok ∈ toks, Lexed tok.kind tok.text

namespace AllLexed

variable {fst snd toks : List Token} {tok : Token}

theorem left (lexed : AllLexed (fst ++ snd)) : AllLexed fst :=
  fun tok mem => lexed tok (List.mem_append_left _ mem)

theorem right (lexed : AllLexed (fst ++ snd)) : AllLexed snd :=
  fun tok mem => lexed tok (List.mem_append_right _ mem)

theorem head (lexed : AllLexed (tok :: toks)) : Lexed tok.kind tok.text :=
  lexed tok List.mem_cons_self

theorem tail (lexed : AllLexed (tok :: toks)) : AllLexed toks :=
  fun other mem => lexed other (List.mem_cons_of_mem _ mem)

end AllLexed

theorem isName_of_lexed {tok : Token} (lexed : Lexed tok.kind tok.text)
    (ident : tok.kind = .ident) : IsName tok.text := by
  rw [ident] at lexed
  exact lexed

theorem isWord_spelling (kw : Keyword) : IsWord kw.spelling.toList := by
  cases kw <;> exact ⟨_, _, rfl, by decide, List.all_eq_true.mp (by decide)⟩

theorem isWord_of_mayName {tok : Token} (lexed : Lexed tok.kind tok.text) (named : MayName tok) :
    IsWord tok.text.toList := by
  rcases named with ident | ⟨kw, kind⟩
  · exact (isName_of_lexed lexed ident).1
  · rw [kind] at lexed
    have spelled : kw.spelling = tok.text := by
      simpa using List.find?_some lexed
    rw [← spelled]
    exact isWord_spelling kw

theorem areNames_of_path (path : Path toks parts) (lexed : AllLexed toks) :
    parts ≠ [] ∧ ∀ part ∈ parts, IsName part := by
  induction path with
  | last ident =>
    grind [isName_of_lexed, AllLexed.head]
  | cons ident _ _ ih =>
    grind [isName_of_lexed, AllLexed.head, AllLexed.tail]

theorem isPath_of_path (path : Path toks parts) (lexed : AllLexed toks) :
    IsPath (".".intercalate parts) := by
  grind [areNames_of_path, IsPath, AllLexed]

theorem printable_of_typeOf (typed : TypeOf toks ty) (lexed : AllLexed toks) : ty.Printable := by
  induction typed with
  | @named _ parts path =>
    have isPath := isPath_of_path path lexed
    cases denoted : Parser.namedType (".".intercalate parts) default with
    | scalar | string => trivial
    | vector =>
      unfold Parser.namedType at denoted
      split at denoted
      · cases denoted
      · split at denoted <;> cases denoted
    | named name span =>
      have same : TypeExpr.named (".".intercalate parts) default = .named name span := by
        grind [Parser.namedType, IsPath, AllLexed]
      cases same
      exact ⟨isPath, denoted⟩
  | vector _ _ _ ih => exact ih lexed.tail.left

theorem canonical_of_numberWord (spelled : (word, v) ∈ numberWords) : v.Canonical := by
  have infinite : (infinity false).Canonical := canonical_ofMagnitude (Nat.le_refl _)
  grind [infinity, Canonical, numberWords]

theorem printable_of_numberOf (num : NumberOf tok v) (lexed : Lexed tok.kind tok.text) :
    v.Printable ∧ (negated v).Printable := by
  cases num with
  | int => exact ⟨trivial, trivial⟩
  | float numeral =>
    rw [numeral] at lexed
    rcases lexed with ⟨mag, bounded, rfl⟩
    exact ⟨canonical_ofMagnitude bounded, canonical_negate _⟩
  | word _ spelled => exact ⟨canonical_of_numberWord spelled, canonical_negate _⟩

theorem printable_of_literalOf (lit : LiteralOf toks v) (lexed : AllLexed toks) : v.Printable := by
  cases lit with
  | number num => exact (printable_of_numberOf num lexed.head).1
  | plus _ num => exact (printable_of_numberOf num lexed.tail.head).1
  | minus _ num => exact (printable_of_numberOf num lexed.tail.head).2
  | bool | string => trivial
  | name ident plain => exact ⟨isName_of_lexed lexed.head ident, plain⟩

theorem printable_of_attributeOf (derives : AttributeOf toks raw) (lexed : AllLexed toks) :
    raw.Printable := by
  cases derives with
  | plain named => exact ⟨isWord_of_mayName lexed.head named, nofun⟩
  | valued named _ lit =>
    refine ⟨isWord_of_mayName lexed.head named, ?_⟩
    rintro _ ⟨⟩
    exact printable_of_literalOf lit lexed.tail.tail

section

variable {toks : List Token}

variable {α : Type} {means : List Token → α → Prop} {holds : α → Prop}

variable {vs : List α}

variable (elem : ∀ {used v}, means used v → AllLexed used → holds v)
include elem

theorem all_of_repeated
    (repeated : Repeated means toks vs) (lexed : AllLexed toks) : ∀ v ∈ vs, holds v := by
  induction repeated with
  | nil => nofun
  | cons derives _ ih =>
    grind [AllLexed]

theorem all_of_separated
    (separated : Separated means toks vs) (lexed : AllLexed toks) : ∀ v ∈ vs, holds v := by
  induction separated with
  | last derives =>
    grind
  | cons derives _ _ ih =>
    grind [AllLexed, Token.isPunct]

theorem all_of_members
    (members : Members means toks vs) (lexed : AllLexed toks) : ∀ v ∈ vs, holds v := by
  rcases members with ⟨_, repeated, _⟩
  exact all_of_repeated elem repeated lexed.tail.left

theorem all_of_entries
    (es : Entries means toks vs) (lexed : AllLexed toks) : ∀ v ∈ vs, holds v := by
  cases es with
  | empty => nofun
  | listed _ separated => exact all_of_separated elem separated lexed.tail.left
  | trailing _ separated => exact all_of_separated elem separated lexed.tail.left

end

theorem printable_of_attributesOf (derives : AttributesOf toks attrs) (lexed : AllLexed toks) :
    ∀ raw ∈ attrs, raw.Printable := by
  cases derives with
  | absent | empty => nofun
  | listed _ es _ => exact all_of_separated printable_of_attributeOf es lexed.tail.left

theorem printable_of_defaultOf (derives : DefaultOf toks given) (lexed : AllLexed toks) :
    ∀ lit ∈ given, lit.value.Printable := by
  cases derives with
  | absent => nofun
  | given _ lit =>
    rintro _ ⟨⟩
    exact printable_of_literalOf lit lexed.tail

theorem printable_of_fieldOf (derives : FieldOf toks f) (lexed : AllLexed toks) : f.Printable := by
  rcases derives with ⟨named, _, typed, defaulted, attributed, _⟩
  have afterColon := lexed.tail.tail
  exact ⟨isWord_of_mayName lexed.head named, printable_of_typeOf typed afterColon.left,
    printable_of_defaultOf defaulted afterColon.right.left,
    printable_of_attributesOf attributed afterColon.right.right.left⟩

theorem printable_of_methodOf (derives : MethodOf toks method) (lexed : AllLexed toks) :
    method.Printable := by
  rcases derives with ⟨named, _, asks, _, _, answers, attributed, _⟩
  have afterOpening := lexed.tail.tail
  have afterColon := afterOpening.right.tail.tail
  exact ⟨isName_of_lexed lexed.head named, isPath_of_path asks afterOpening.left,
    isPath_of_path answers afterColon.left,
    printable_of_attributesOf attributed afterColon.right.left⟩

theorem isName_of_enumValueOf (derives : EnumValueOf toks v) (lexed : AllLexed toks) :
    IsName v.name := by
  cases derives with
  | plain named => exact isName_of_lexed lexed.head named
  | numbered named => exact isName_of_lexed lexed.head named

theorem isPath_of_variantOf (derives : VariantOf toks alt) (lexed : AllLexed toks) :
    IsPath alt.typeName := by
  rcases derives with ⟨path⟩
  exact isPath_of_path path lexed

theorem printable_of_bodyOf (derives : BodyOf kw toks body) (lexed : AllLexed toks) :
    body.Printable := by
  cases derives with
  | union es => exact all_of_entries isPath_of_variantOf es lexed
  | struct members => exact all_of_members printable_of_fieldOf members lexed
  | table members => exact all_of_members printable_of_fieldOf members lexed
  | service members => exact all_of_members printable_of_methodOf members lexed

theorem printable_of_declOf (derives : DeclOf ns toks decl) (lexed : AllLexed toks) :
    decl.Printable ns := by
  cases derives with
  | enum _ named _ typed attributed es =>
    have afterColon := lexed.tail.tail.tail
    exact ⟨isName_of_lexed lexed.tail.head named, rfl,
      printable_of_attributesOf attributed afterColon.right.left,
      printable_of_typeOf typed afterColon.left,
      all_of_entries isName_of_enumValueOf es afterColon.right.right⟩
  | other _ named attributed bodied =>
    have afterName := lexed.tail.tail
    exact ⟨isName_of_lexed lexed.tail.head named, rfl,
      printable_of_attributesOf attributed afterName.left,
      printable_of_bodyOf bodied afterName.right⟩

theorem printable_of_directiveOf (derives : DirectiveOf ns toks item) (lexed : AllLexed toks) :
    item.Printable ns := by
  cases derives with
  | leaveScope => nofun
  | enterScope _ path => exact (areNames_of_path path lexed.tail.left).2
  | @quoted _ _ _ kw _ _ _ makes => cases kw <;> cases makes <;> trivial
  | unquoted => trivial
  | rootType _ path => exact ⟨isPath_of_path path lexed.tail.left, rfl⟩

theorem itemsPrintable_of_itemsOf (derives : ItemsOf ns toks items) (lexed : AllLexed toks) :
    ItemsPrintable ns items := by
  induction derives with
  | nil => exact .nil
  | semicolon _ _ ih => exact ih lexed.tail
  | cons means _ ih =>
    refine .cons ?_ (ih lexed.right)
    cases means with
    | directive directs => exact printable_of_directiveOf directs lexed.left
    | declaration declares => exact printable_of_declOf declares lexed.left

end FlatSchema
