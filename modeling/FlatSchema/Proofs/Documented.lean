import FlatSchema.Proofs.SentenceParsed

/-!
# Parsing documented text

The grammar leaves documentation out.  Here it is put back: a text is told by
tokens with documentation before them, and what a declaration or a member
takes is the documentation before its first token and what was left by those
before it.  A state of the parser that faces items told in this way reads
exactly these items with their documentation and reports nothing.

Every sentence of the grammar is told by its tokens, with whatever
documentation there is.
-/

namespace FlatSchema

open DeclBody

variable {marks : List Char} {α : Type} {src s : ParserState} {more : List Noted}

open Grammar

/-! ## Told text -/

section

variable (means : List Token → α → Prop)

/-- Members up to a brace, where documentation waits for the first of them; none is left behind the
brace. -/
inductive Told : List String → List Noted → List α → List (List String) → List String → Prop where
  | nil {last : Noted} (closes : last.2.isPunct '}') : Told waiting [last] [] [] []
  | cons (elem : means (used.map Prod.snd) v)
      (others : Told (Noted.behind used) rest vs docs left) :
      Told waiting (used ++ rest) (v :: vs) ((waiting ++ Noted.first used) :: docs) left

/-- Entries up to a brace, and the documentation that is left behind it: none where the brace
stands behind a comma. -/
inductive Series : List String → List Noted → List α → List (List String) → List String → Prop where
  | nil {last : Noted} (closes : last.2.isPunct '}') : Series waiting [last] [] [] []
  | last {last : Noted} (elem : means (used.map Prod.snd) v) (closes : last.2.isPunct '}') :
      Series waiting (used ++ [last]) [v] [waiting ++ Noted.first used]
        (Noted.behind used ++ last.1)
  | cons {comma : Token} (elem : means toks v) (dvd : comma.isPunct ',')
      (split : used.map Prod.snd = toks ++ [comma])
      (others : Series (Noted.behind used) rest vs docs left) :
      Series waiting (used ++ rest) (v :: vs) ((waiting ++ Noted.first used) :: docs) left

end

/-- What stands behind the opening brace of a declaration other than an enumeration. -/
inductive BodyTold (waiting : List String) :
    Keyword → List Noted → DeclBody → List (List String) → List String → Prop where
  | union (es : Series VariantOf waiting between alts docs left) :
      BodyTold waiting .unionWord between (.union alts) docs left
  | struct (members : Told FieldOf waiting between fs docs left) :
      BodyTold waiting .structWord between (.struct fs) docs left
  | table (members : Told FieldOf waiting between fs docs left) :
      BodyTold waiting .tableWord between (.table fs) docs left
  | service (members : Told MethodOf waiting between methods docs left) :
      BodyTold waiting .serviceWord between (.service methods) docs left

/-- An item in a scope, with the documentation of it and of its members, and what it leaves. -/
inductive ItemTold (waiting ns : List String) :
    List Noted → Item → List (List String) → List String → Prop where
  | directive (directs : DirectiveOf ns (used.map Prod.snd) item) :
      ItemTold waiting ns used item [] (Noted.behind used)
  | enum {word name colon lead : Token}
      (begins : word.kind = .keyword .enumWord) (named : name.kind = .ident)
      (dvd : colon.isPunct ':') (typed : TypeOf typeToks base)
      (attributed : AttributesOf attrToks attrs) (opens : lead.isPunct '{')
      (split : used.map Prod.snd = word :: name :: colon :: (typeToks ++ (attrToks ++ [lead])))
      (es : Series EnumValueOf (Noted.behind used) between vs docs left) :
      ItemTold waiting ns (used ++ between)
        (.declaration ⟨name.text, ns, [], attrs, .enum base vs, default⟩)
        ((waiting ++ Noted.first used) :: docs) left
  | other {word name lead : Token} (begins : word.kind = .keyword kw)
      (named : name.kind = .ident) (attributed : AttributesOf attrToks attrs)
      (opens : lead.isPunct '{') (split : used.map Prod.snd = word :: name :: (attrToks ++ [lead]))
      (bodied : BodyTold (Noted.behind used) kw between body docs left) :
      ItemTold waiting ns (used ++ between) (.declaration ⟨name.text, ns, [], attrs, body, default⟩)
        ((waiting ++ Noted.first used) :: docs) left

/-- A stretch of tokens, the item that it tells with its documentation, none for a lone semicolon,
and the documentation that it leaves to the next stretch. -/
structure Portion where
  stretch : List Noted
  item : Option (Item × List (List String))
  left : List String

/-- Portions one after another, each item in the scope that those before it leave. -/
inductive Portions : List String → List String → List Portion → Prop where
  | nil : Portions waiting ns []
  | semicolon {lone : Noted} (ends : lone.2.isPunct ';') (others : Portions [] ns rest) :
      Portions waiting ns (⟨[lone], none, []⟩ :: rest)
  | cons (tells : ItemTold waiting ns used item docs left)
      (others : Portions left (item.scopeAfter ns) rest) :
      Portions waiting ns (⟨used, some (item, docs), left⟩ :: rest)

variable {waiting left lines : List String}

/-- The documentation of each member of a declaration. -/
def DeclBody.memberDocs : DeclBody → List (List String)
  | .enum _ vs => vs.map EnumValue.doc
  | .union alts => alts.map Variant.doc
  | .struct fs => fs.map Field.doc
  | .table fs => fs.map Field.doc
  | .service methods => methods.map Method.doc

/-- The documentation of an item and of its members. -/
def Item.docs : Item → List (List String)
  | .declaration decl => decl.doc :: decl.body.memberDocs
  | _ => []

/-- An item as the grammar derives it, and its documentation. -/
def Item.told (item : Item) : Item × List (List String) :=
  (item.plain, item.docs)

/-- The members of a declaration with other documentation. -/
def DeclBody.redocumented (docs : List (List String)) : DeclBody → DeclBody
  | .enum base vs =>
    .enum base (docs.zipWith (fun doc v => { v with doc }) vs)
  | .union alts => .union (docs.zipWith (fun doc alt => { alt with doc }) alts)
  | .struct fs => .struct (docs.zipWith (fun doc f => { f with doc }) fs)
  | .table fs => .table (docs.zipWith (fun doc f => { f with doc }) fs)
  | .service methods => .service (docs.zipWith (fun doc method => { method with doc }) methods)

/-- An item with other documentation of it and of its members. -/
def Item.redocumented (docs : List (List String)) : Item → Item
  | .declaration decl =>
    .declaration
      { decl with doc := docs.headD [], body := decl.body.redocumented docs.tail }
  | other => other

theorem DeclBody.redocumented_undocumented (body : DeclBody) :
    body.unplaced.undocumented.redocumented body.memberDocs = body.unplaced := by
  cases body with
  | enum | union | struct | table | service =>
    simp only [unplaced, undocumented, memberDocs, redocumented, List.map_map, List.zipWith_map,
      List.zipWith_self]
    rfl

/-- An item without places is what the grammar derives with its documentation. -/
theorem Item.redocumented_plain (item : Item) :
    item.plain.redocumented item.docs = item.unplaced := by
  cases item with
  | declaration decl =>
    have body := decl.body.redocumented_undocumented
    simp [plain, unplaced, undocumented, docs, redocumented, Decl.unplaced, Decl.undocumented, body]
  | _ => rfl

theorem Gives.map {parser : Parser α} (make : α → β)
    (gives : Gives left src rest more (fun v => holds (make v)) (parser s)) :
    Gives left src rest more holds ((make <$> parser) s) :=
  gives.andThen fun _ _ held => held

namespace Parser

/-! ## Bodies -/

section

variable {parser : Parser α} {view : α → α} {doc : α → List String}
  {means : List Token → α → Prop} {between : List Noted} {vs : List α}
  {docs : List (List String)}

theorem isEof_of_mayName (named : MayName tok) : tok.isEof = false := by
  grind [Token.isEof, MayName]

/-- A closing brace ends the members. -/
theorem members_close (faces : withoutDocs s.rest = closing :: rest)
    (closes : closing.isPunct '}') (read : List α) :
    members parser read s = .done (read, closing.span) (close s) := by
  rw [members]
  simp only [head_of_facing faces, closes, if_true]
  rfl

/-- A member that is read goes to the others. -/
theorem members_next (faces : withoutDocs s.rest = name :: rest) (named : MayName name)
    (hit : parser (settle s) = .done v next)
    (fewer : next.rest.length < s.rest.length) (read : List α) :
    members parser read s = members parser (read ++ [v]) next := by
  rw [members]
  simp [head_of_facing faces, isPunct_of_mayName named, isEof_of_mayName named, hit, if_pos fewer]

/-- A closing brace ends the entries. -/
theorem entries_close (faces : withoutDocs s.rest = closing :: rest)
    (closes : closing.isPunct '}') (read : List α) :
    entries parser read s = .done (read, closing.span) (close s) := by
  rw [entries]
  simp only [head_of_facing faces, closes, if_true]
  rfl

/-- An entry is followed by a comma, or by the brace. -/
theorem entries_next (faces : withoutDocs s.rest = name :: rest) (named : MayName name)
    (hit : parser (settle s) = .done v next) (read : List α) :
    entries parser read s =
      (eatPunct ',' next).andThen fun more post =>
        if more then
          if post.rest.length < s.rest.length then entries parser (read ++ [v]) post
          else .failed post
        else
          (expectPunct '}' post).andThen fun closing final =>
            .done (read ++ [v], closing.span) final := by
  rw [entries]
  simp [head_of_facing faces, isPunct_of_mayName named, hit, Reply.andThen]

/-- What comes to the members that have been read, with its documentation. -/
def Collects (view : α → α) (doc : α → List String) (read vs : List α)
    (docs : List (List String)) (res : List α × Span) : Prop :=
  res.1.map view = read.map view ++ vs ∧ res.1.map doc = read.map doc ++ docs

theorem Collects.nil (read : List α) (span : Span) : Collects view doc read [] [] (read, span) :=
  ⟨(List.append_nil _).symm, (List.append_nil _).symm⟩

theorem Collects.cons {read : List α} (own : view hit = v ∧ doc hit = lines)
    (collects : Collects view doc (read ++ [hit]) vs docs res) :
    Collects view doc read (v :: vs) (lines :: docs) res := by
  grind [Collects]

theorem members_gives (complete : CompleteMember parser view doc means []) (named : Named means)
    (told : Told means waiting between vs docs left) (here : At waiting src [] (between ++ more) s)
    (read : List α) :
    Gives left src [] more (Collects view doc read vs docs) (members parser read s) := by
  induction told generalizing s read with
  | nil closes =>
    rw [members_close here.facing closes]
    exact ⟨.nil read _, here.close⟩
  | @cons used v rest vs docs left waiting elem others ih =>
    rw [List.append_assoc] at here
    rcases (complete here.fresh.settle (List.append_nil _).symm elem (.none _)).exists with
      ⟨hit, next, run, own, later⟩
    rcases named elem with ⟨name, tail, split, isNamed⟩
    have faces := here.facing
    rw [List.map_append, split] at faces
    have fewer := here.length_lt later (by have := congrArg List.length split; simp at *; omega)
    rw [members_next faces isNamed run fewer]
    refine (ih (here.via later) (read ++ [hit])).imp ?_
    grind [Collects.cons]

theorem entries_gives (complete : CompleteMember parser view doc means marks)
    (named : Named means) (noComma : ',' ∉ marks) (noBrace : '}' ∉ marks)
    (told : Series means waiting between vs docs left)
    (here : At waiting src [] (between ++ more) s) (read : List α) :
    Gives left src [] more (Collects view doc read vs docs) (entries parser read s) := by
  induction told generalizing s read with
  | nil closes =>
    rw [entries_close here.facing closes]
    exact ⟨.nil read _, here.close⟩
  | @last used v waiting last elem closes =>
    rw [List.append_assoc] at here
    rcases (complete here.settle (List.append_nil _).symm elem (.cons closes noBrace _)).exists with
      ⟨hit, next, run, own, there⟩
    rcases named elem with ⟨name, tail, split, isNamed⟩
    have faces := here.facing
    rw [List.map_append, split] at faces
    rw [entries_next faces isNamed run]
    refine (eatPunct_absent there.take (.cons closes (by decide) _)).andThen ?_
    rintro _ post ⟨rfl, here⟩
    refine (expectPunct_gives here closes).andThen ?_
    rintro _ post ⟨_, here⟩
    rw [List.flatMap_singleton] at here
    exact ⟨(Collects.nil _ _).cons own, here⟩
  | @cons toks v used rest vs docs left waiting comma elem dvd split others ih =>
    rw [List.append_assoc] at here
    rcases (complete here.fresh.settle split elem (.cons dvd noComma _)).exists with
      ⟨hit, next, run, own, later⟩
    rcases named elem with ⟨name, tail, rfl, isNamed⟩
    have faces := here.facing
    rw [List.map_append, split] at faces
    rw [entries_next faces isNamed run]
    refine (eatPunct_gives later dvd).andThen ?_
    rintro _ post ⟨rfl, later⟩
    have fewer := here.length_lt later (by have := congrArg List.length split; simp at *; omega)
    rw [if_pos fewer]
    refine (ih (here.via later) (read ++ [hit])).imp ?_
    grind [Collects.cons]

/-- A body succeeds on what tells its members. -/
def CompleteBody (parser : Parser (List α × Span)) (view : α → α) (doc : α → List String)
    (told : List String → List Noted → List α → List (List String) → List String → Prop) :
    Prop :=
  ∀ {waiting left : List String} {src s : ParserState} {lead : Token} {between more : List Noted}
    {vs : List α} {docs : List (List String)},
    At waiting src [lead] (between ++ more) s → lead.isPunct '{' →
      told waiting between vs docs left →
        Gives left src [] more (Collects view doc [] vs docs) (parser s)

theorem complete_body (complete : CompleteMember parser view doc means []) (named : Named means) :
    CompleteBody (body parser) view doc (Told means) := by
  intro waiting left src s lead between more vs docs here opens told
  refine (expectPunct_gives here opens).andThen ?_
  rintro _ mid ⟨_, here⟩
  exact members_gives complete named told here []

theorem complete_commaList (complete : CompleteMember parser view doc means marks)
    (named : Named means) (noComma : ',' ∉ marks) (noBrace : '}' ∉ marks) :
    CompleteBody (commaList parser) view doc (Series means) := by
  intro waiting left src s lead between more vs docs here opens told
  refine (expectPunct_gives here opens).andThen ?_
  rintro _ mid ⟨_, here⟩
  exact entries_gives complete named noComma noBrace told here []

end

/-! ## Items -/

section

variable {start : Span} {doc ns : List String} {toks : List Token} {semi : Token}

theorem stringDirective_gives (here : At left src [v, semi] more s)
    (quoted : v.kind = .string text) (ends : semi.isPunct ';') :
    Gives left src [] more (·.1 = text) (stringDirective start s) := by
  refine (expectString_gives _ here quoted).andThen ?_
  rintro _ mid ⟨rfl, here⟩
  refine (expectPunct_gives here ends).andThen ?_
  rintro _ post ⟨_, here⟩
  exact ⟨rfl, here⟩

theorem scopeDirective_leaves (here : At left src [semi] more s) (ends : semi.isPunct ';') :
    Gives left src [] more (·.unplaced = .enterScope [] default) (scopeDirective start s) := by
  rw [scopeDirective, bind_run, bind_run, isPunct_run, here.head, ends]
  refine (expectPunct_gives here.settle ends).andThen ?_
  rintro _ post ⟨_, here⟩
  exact ⟨rfl, here⟩

theorem scopeDirective_enters (here : At left src (toks ++ [semi]) more s)
    (path : Path toks parts) (ends : semi.isPunct ';') :
    Gives left src [] more (·.unplaced = .enterScope parts default) (scopeDirective start s) := by
  have plain : (head (settle s)).isPunct ';' = false := by
    rcases path_cases path with ⟨name, tail, _, rfl, ident, _⟩
    rw [here.head]
    exact isPunct_of_mayName (.inl ident) ';'
  have named : Gives left src [semi] more (· = parts)
      ((do if ← isPunct ';' then pure [] else Prod.fst <$> dottedParts "namespace name" :
        Parser (List String)) s) := by
    rw [bind_run, isPunct_run, plain]
    refine (complete_dottedParts "namespace name" here.settle path
      (.cons ends (by decide) _)).andThen ?_
    rintro ⟨hit, span⟩ post ⟨rfl, here⟩
    exact ⟨rfl, here⟩
  refine named.andThen ?_
  rintro _ mid ⟨rfl, here⟩
  refine (expectPunct_gives here ends).andThen ?_
  rintro _ post ⟨_, here⟩
  exact ⟨rfl, here⟩

theorem rootDirective_gives (here : At left src (toks ++ [semi]) more s)
    (path : Path toks parts) (ends : semi.isPunct ';') :
    Gives left src [] more (·.unplaced = .rootType (".".intercalate parts) ns default)
      (rootDirective start ns s) := by
  refine (complete_dottedName _ here ⟨_, path, rfl⟩ (.cons ends (by decide) _)).andThen ?_
  rintro ⟨name, span⟩ mid ⟨rfl, here⟩
  refine (expectPunct_gives here ends).andThen ?_
  rintro _ post ⟨_, here⟩
  exact ⟨rfl, here⟩

theorem attributeDirective_gives (here : At left src [name, semi] more s)
    (names : name.kind = .string text ∨ name.kind = .ident ∧ text = Text.ofString name.text)
    (ends : semi.isPunct ';') :
    Gives left src [] more (·.unplaced = .declareAttribute text default)
      (attributeDirective start s) := by
  rw [attributeDirective, bind_run, show current s = .done (head (settle s)) (settle s) from rfl]
  simp only [Reply.andThen]
  rw [here.head]
  refine Succeeds.andThen (?_ : Gives left src [semi] more (· = text) _) ?_
  · rcases names with quoted | ⟨named, rfl⟩
    · rw [quoted]
      simp only [bind_run, advance_run, step_settle, Reply.andThen]
      exact ⟨rfl, here.step⟩
    · rw [named]
      refine (expectIdent_gives _ here.settle named).andThen ?_
      rintro _ post ⟨rfl, here⟩
      exact ⟨rfl, here⟩
  · rintro _ mid ⟨rfl, here⟩
    refine (expectPunct_gives here ends).andThen ?_
    rintro _ post ⟨_, here⟩
    exact ⟨rfl, here⟩

theorem directive_gives {item : Item} (directs : DirectiveOf ns (word :: toks) item)
    (begins : word.kind = .keyword kw) (here : At left src toks more s) :
    Gives left src [] more (·.unplaced = item) (itemAfter kw start doc ns s) := by
  have same : ∀ {other : Keyword}, word.kind = .keyword other → kw = other := by
    grind
  cases directs with
  | leaveScope isWord ends =>
    cases same isWord
    exact scopeDirective_leaves here ends
  | enterScope isWord path ends =>
    cases same isWord
    exact scopeDirective_enters here path ends
  | rootType isWord path ends =>
    cases same isWord
    exact rootDirective_gives here path ends
  | unquoted isWord named ends =>
    cases same isWord
    exact attributeDirective_gives here (.inr ⟨named, rfl⟩) ends
  | quoted isWord makes quoted ends =>
    cases same isWord
    cases kw with
    | includeWord | fileIdentifierWord | fileExtensionWord =>
      cases makes
      refine (stringDirective_gives here quoted ends).andThen ?_
      rintro ⟨hit, span⟩ post ⟨rfl, here⟩
      exact ⟨rfl, here⟩
    | attributeWord =>
      cases makes
      exact attributeDirective_gives here (.inl quoted) ends
    | _ => cases makes

/-- A declaration other than an enumeration, behind its word. -/
theorem other_gives
    {make : List α → DeclBody} {name lead : Token} (complete : CompleteBody parser view docOf told)
    (makes : ∀ hit, (make hit).unplaced.undocumented = make (hit.map view))
    (documents : ∀ hit, (make hit).memberDocs = hit.map docOf)
    (named : name.kind = .ident) (attributed : AttributesOf attrToks attrs)
    (opens : lead.isPunct '{') (tells : told waiting between vs docs left)
    (here : At waiting src (name :: (attrToks ++ [lead])) (between ++ more) s) :
    Gives left src [] more
      (Item.told · = (.declaration ⟨name.text, ns, [], attrs, make vs, default⟩, doc :: docs))
      ((.declaration <$> (do
        let (name, _) ← expectIdent what
        let attrs ← attributeList
        let (vs, close) ← parser
        return ⟨name, ns, doc, attrs, make vs, Span.join start close⟩) : Parser Item) s) := by
  apply Gives.map
  refine (expectIdent_gives what here named).andThen ?_
  rintro _ one ⟨rfl, here⟩
  refine (complete_attributeList here attributed (.cons opens (by decide) _)).andThen ?_
  rintro attrs two ⟨rfl, here⟩
  refine (complete here opens tells).andThen ?_
  rintro ⟨hit, close⟩ post ⟨⟨rfl, rfl⟩, here⟩
  refine ⟨?_, here⟩
  simp only [Item.told, Item.plain, Item.unplaced, Item.undocumented, Item.docs, Decl.unplaced,
    Decl.undocumented, makes, documents]

/-- An enumeration behind its word. -/
theorem enum_gives (named : name.kind = .ident)
    (dvd : colon.isPunct ':') (typed : TypeOf typeToks base)
    (attributed : AttributesOf attrToks attrs) (opens : lead.isPunct '{')
    (tells : Series EnumValueOf waiting between vs docs left)
    (here : At waiting src (name :: colon :: (typeToks ++ (attrToks ++ [lead])))
      (between ++ more) s) :
    Gives left src [] more
      (Item.told · = (.declaration ⟨name.text, ns, [], attrs, .enum base vs, default⟩, doc :: docs))
      ((.declaration <$> enumDecl start doc ns : Parser Item) s) := by
  apply Gives.map
  refine (expectIdent_gives _ here named).andThen ?_
  rintro _ one ⟨rfl, here⟩
  refine (expectPunct_gives here dvd).andThen ?_
  rintro _ two ⟨_, here⟩
  refine (complete_typeExpr here typed
    (clear_attributeList attributed (by decide) (.cons opens (by decide) _))).andThen ?_
  rintro ty three ⟨rfl, here⟩
  refine (complete_attributeList here attributed (.cons opens (by decide) _)).andThen ?_
  rintro attrs four ⟨rfl, here⟩
  refine (complete_commaList complete_enumValue named_enumValue (by decide) (by decide) here opens
    tells).andThen ?_
  rintro ⟨hit, close⟩ post ⟨⟨rfl, rfl⟩, here⟩
  refine ⟨?_, here⟩
  simp only [Item.told, Item.plain, Item.unplaced, Item.undocumented, Item.docs, Decl.unplaced,
    Decl.undocumented, unplaced, undocumented, memberDocs, List.map_map]
  rfl

/-- A declaration behind its word. -/
theorem body_gives {body : DeclBody} (named : name.kind = .ident)
    (attributed : AttributesOf attrToks attrs) (opens : lead.isPunct '{')
    (bodied : BodyTold waiting kw between body docs left)
    (here : At waiting src (name :: (attrToks ++ [lead])) (between ++ more) s) :
    Gives left src [] more
      (Item.told · = (.declaration ⟨name.text, ns, [], attrs, body, default⟩, doc :: docs))
      (itemAfter kw start doc ns s) := by
  cases bodied with
  | union tells =>
    exact other_gives (complete_commaList complete_variant named_variant (by decide) (by decide))
      (by simp [unplaced, undocumented]) (fun _ => rfl) named attributed opens
      tells here
  | struct tells =>
    exact other_gives (complete_body complete_field named_field)
      (by simp [unplaced, undocumented]) (fun _ => rfl) named attributed opens
      tells here
  | table tells =>
    exact other_gives (complete_body complete_field named_field)
      (by simp [unplaced, undocumented]) (fun _ => rfl) named attributed opens
      tells here
  | service tells =>
    exact other_gives (complete_body complete_method named_method)
      (by simp [unplaced, undocumented]) (fun _ => rfl) named attributed opens
      tells here

/-- A directive begins with a word that may begin an item. -/
theorem directive_cases {item : Item} (directs : DirectiveOf ns toks item) :
    ∃ word kw tail, toks = word :: tail ∧ word.kind = .keyword kw ∧ kw.startsItem := by
  cases directs with
  | leaveScope isWord => exact ⟨_, _, _, rfl, isWord, rfl⟩
  | enterScope isWord => exact ⟨_, _, _, rfl, isWord, rfl⟩
  | unquoted isWord => exact ⟨_, _, _, rfl, isWord, rfl⟩
  | rootType isWord => exact ⟨_, _, _, rfl, isWord, rfl⟩
  | @quoted _ _ _ kw _ _ isWord makes =>
    refine ⟨_, _, _, rfl, isWord, ?_⟩
    cases kw <;> first | rfl | cases makes

theorem undocumented_directive {item : Item} (directs : DirectiveOf ns toks item) :
    item.undocumented = item ∧ item.docs = [] := by
  cases directs with
  | @quoted _ _ _ kw _ _ _ makes =>
    cases kw <;> cases makes <;> exact ⟨rfl, rfl⟩
  | _ => exact ⟨rfl, rfl⟩

/-- An item is read behind its word, with the documentation that waits. -/
theorem item_word (here : At left src (word :: toks) more (untold s))
    (begins : word.kind = .keyword kw) (starts : kw.startsItem) :
    item ns s =
      (itemAfter kw word.span (settle s).docs ns (step (untold s))).andThen
        fun v post => .done (some v) post := by
  rw [item, bind_run, takeDoc_run]
  simp only [Reply.andThen]
  rw [bind_run, show current (untold s) =
    .done (head (settle (untold s))) (settle (untold s)) from rfl]
  simp only [Reply.andThen]
  rw [here.head, Token.isPunct_of_kind begins (fun _ => TokenClass.noConfusion), begins]
  simp only [starts, if_true, Bool.false_eq_true, if_false, bind_run, advance_run, step_settle,
    Reply.andThen]
  rfl

theorem item_semicolon (here : At left src (semi :: toks) more (untold s))
    (lone : semi.isPunct ';') : item ns s = .done none (step (untold s)) := by
  rw [item, bind_run, takeDoc_run]
  simp only [Reply.andThen]
  rw [bind_run, show current (untold s) =
    .done (head (settle (untold s))) (settle (untold s)) from rfl]
  simp only [Reply.andThen]
  rw [here.head, lone]
  simp [bind_run, advance_run, step_settle, Reply.andThen, pure_run]

theorem docs_unplaced (item : Item) : item.unplaced.docs = item.docs := by
  cases item with
  | declaration decl =>
    rcases decl with ⟨name, own, doc, attrs, body, span⟩
    cases body <;> simp [Item.unplaced, Decl.unplaced, unplaced, Item.docs,
      memberDocs] <;> intros <;> rfl
  | _ => rfl

theorem item_gives (tells : ItemTold waiting ns used v docs left)
    (here : At waiting src [] (used ++ more) s) :
    Gives left src [] more (fun hit => ∃ read, hit = some read ∧ read.told = (v, docs))
      (item ns s) := by
  cases tells with
  | directive directs =>
    rcases directive_cases directs with ⟨word, kw, tail, split, begins, starts⟩
    rcases here.untold split with ⟨_, here⟩
    rw [item_word here begins starts]
    rw [split] at directs
    refine (directive_gives directs begins here.step).andThen ?_
    rintro hit post ⟨rfl, here⟩
    rcases undocumented_directive directs with ⟨plain, none⟩
    refine ⟨⟨hit, rfl, ?_⟩, here⟩
    rw [Item.told, Item.plain, plain, ← docs_unplaced, none]
  | enum begins named dvd typed attributed opens split es =>
    rw [List.append_assoc] at here
    rcases here.untold split with ⟨told, here⟩
    rw [item_word here begins rfl, told]
    refine (enum_gives named dvd typed attributed opens es here.step).andThen ?_
    rintro hit post ⟨told, here⟩
    exact ⟨⟨hit, rfl, told⟩, here⟩
  | other begins named attributed opens split bodied =>
    rw [List.append_assoc] at here
    rcases here.untold split with ⟨told, here⟩
    rw [item_word here begins (by cases bodied <;> rfl), told]
    refine (body_gives named attributed opens bodied here.step).andThen ?_
    rintro hit post ⟨told, here⟩
    exact ⟨⟨hit, rfl, told⟩, here⟩

/-- What is told begins with a word. -/
theorem itemTold_cases (tells : ItemTold waiting ns noted v docs left) :
    ∃ doc word kw tail, noted = (doc, word) :: tail ∧ word.kind = .keyword kw := by
  have first {toks : List Token} {word : Token} {used more : List Noted} {kw : Keyword}
      (split : used.map Prod.snd = word :: toks) (begins : word.kind = .keyword kw) :
      ∃ doc word kw tail, used ++ more = (doc, word) :: tail ∧ word.kind = .keyword kw := by
    rcases List.map_eq_cons_iff.mp split with ⟨⟨own, word⟩, others, rfl, rfl, _⟩
    exact ⟨own, word, kw, _, rfl, begins⟩
  cases tells with
  | directive directs =>
    rcases directive_cases directs with ⟨word, kw, tail, split, begins, _⟩
    rw [← List.append_nil noted]
    exact first split begins
  | enum begins _ _ _ _ _ split => exact first split begins
  | other begins _ _ _ split => exact first split begins

theorem items_end (here : At waiting src [] [] s) (read : List Item) :
    items ns read s = (read, s.reports) := by
  have ended : (head (settle s)).isEof := by
    rcases head_settle_cases s with ⟨_, isLast⟩ | ⟨tok, rest, hit, _, plain⟩
    · rw [isLast]
      exact decide_eq_true here.eof
    · have faces := here.settle.facing
      rw [hit, withoutDocs_cons plain] at faces
      cases faces
  rw [items]
  simp only [ended, if_true]
  rfl

/-- An item that is read goes to the others and sets the scope for them. -/
theorem items_next (faces : withoutDocs s.rest = tok :: rest) (fits : tok.kind ≠ .eof)
    (hit : item ns (settle s) = .done v next)
    (fewer : next.rest.length < s.rest.length) (read : List Item) :
    items ns read s = items (v.toList.foldl Item.scopeAfter ns) (read ++ v.toList) next := by
  have goesOn : tok.isEof = false := decide_eq_false fits
  rw [items]
  cases v with
  | none | some =>
    simp only [head_of_facing faces, goesOn, hit, Bool.false_eq_true, if_false, if_pos fewer,
      Option.toList]

end

/-- A state that faces told items reads these items with their documentation and reports
nothing. -/
theorem items_gives (told : Portions waiting ns portions)
    (here : At waiting src [] (portions.flatMap Portion.stretch) s) (read : List Item) :
    (items ns read s).1.map Item.told = read.map Item.told ++ portions.filterMap Portion.item ∧
      (items ns read s).2 = src.reports := by
  induction told generalizing s read with
  | nil =>
    rw [items_end here]
    exact ⟨(List.append_nil _).symm, here.reports_eq⟩
  | @semicolon ns rest waiting lone ends others ih =>
    rw [List.flatMap_cons] at here
    have fits : lone.2.kind ≠ .eof := by
      rw [of_decide_eq_true ends]
      exact TokenClass.noConfusion
    have later := (here.fresh.settle.untold rfl).2
    rw [items_next here.facing fits (item_semicolon later ends)
      (here.length_lt later.step (by simp))]
    rw [Option.toList_none, List.append_nil]
    exact ih (here.via later.step) read
  | @cons waiting ns used v docs left rest tells others ih =>
    rw [List.flatMap_cons] at here
    rcases (item_gives tells here.fresh.settle).exists with
      ⟨_, next, run, ⟨hit, rfl, told⟩, later⟩
    rcases itemTold_cases tells with ⟨doc, word, kw, tail, rfl, begins⟩
    have fits : word.kind ≠ .eof := by
      grind
    rw [items_next here.facing fits run (here.length_lt later (by simp <;> omega))]
    rw [← (Prod.mk.inj told).1, Item.scopeAfter_plain] at ih
    rcases ih (here.via later) (read ++ [hit]) with ⟨listed, silent⟩
    grind

/-! ## Sentences -/

section

variable {means : List Token → α → Prop} {front : List Token} {noted : List Noted}
  {closing : Token}

theorem told_of_repeated (repeated : Repeated means toks vs) (closes : closing.isPunct '}')
    (same : noted.map Prod.snd = toks ++ [closing]) (waiting : List String) :
    ∃ docs left, Told means waiting noted vs docs left := by
  induction repeated generalizing noted waiting with
  | nil =>
    rcases List.map_eq_singleton_iff.mp same with ⟨last, rfl, rfl⟩
    exact ⟨_, _, .nil closes⟩
  | cons elem _ ih =>
    rw [List.append_assoc] at same
    rcases List.map_eq_append_iff.mp same with ⟨used, rest, rfl, rfl, others⟩
    rcases ih others (Noted.behind used) with ⟨docs, left, told⟩
    exact ⟨_, _, .cons elem told⟩

theorem series_of_separated (separated : Separated means toks vs) (closes : closing.isPunct '}')
    (ends : ending = [closing] ∨ ∃ comma : Token, comma.isPunct ',' ∧ ending = [comma, closing])
    (same : noted.map Prod.snd = toks ++ ending) (waiting : List String) :
    ∃ docs left, Series means waiting noted vs docs left := by
  induction separated generalizing noted waiting with
  | last elem =>
    rcases ends with rfl | ⟨comma, dvd, rfl⟩
    · rcases List.map_eq_append_iff.mp same with ⟨used, rest, rfl, rfl, others⟩
      rcases List.map_eq_singleton_iff.mp others with ⟨last, rfl, rfl⟩
      exact ⟨_, _, .last elem closes⟩
    · rw [List.append_cons] at same
      rcases List.map_eq_append_iff.mp same with ⟨used, rest, rfl, own, others⟩
      rcases List.map_eq_singleton_iff.mp others with ⟨last, rfl, rfl⟩
      exact ⟨_, _, .cons elem dvd own (.nil closes)⟩
  | @cons first rest comma v vs elem dvd _ ih =>
    rw [List.append_assoc, List.cons_append, List.append_cons] at same
    rcases List.map_eq_append_iff.mp same with ⟨used, rest, rfl, own, others⟩
    rcases ih others (Noted.behind used) with ⟨docs, left, told⟩
    exact ⟨_, _, .cons elem dvd own told⟩

/-- Tokens up to an opening brace, and something told behind it. -/
def Braced (front : List Token)
    (told : List String → List Noted → List (List String) → List String → Prop)
    (noted : List Noted) : Prop :=
  ∃ (lead : Token) (used between : List Noted) (docs : List (List String)) (left : List String),
    noted = used ++ between ∧ lead.isPunct '{' ∧ used.map Prod.snd = front ++ [lead] ∧
      told (Noted.behind used) between docs left

theorem Braced.of_inner
    (opens : lead.isPunct '{') (same : noted.map Prod.snd = front ++ lead :: toks)
    (tells : ∀ (between : List Noted) (waiting : List String), between.map Prod.snd = toks →
      ∃ docs left, told waiting between docs left) : Braced front told noted := by
  rw [List.append_cons] at same
  rcases List.map_eq_append_iff.mp same with ⟨used, between, rfl, own, others⟩
  rcases tells between (Noted.behind used) others with ⟨docs, left, told⟩
  exact ⟨lead, used, between, docs, left, rfl, opens, own, told⟩

theorem braced_of_members (members : Members means toks vs)
    (same : noted.map Prod.snd = front ++ toks) : Braced front (Told means · · vs · ·) noted := by
  rcases members with ⟨opens, repeated, closes⟩
  exact .of_inner opens same fun _ waiting held => told_of_repeated repeated closes held waiting

theorem braced_of_entries (es : Entries means toks vs) (same : noted.map Prod.snd = front ++ toks) :
    Braced front (Series means · · vs · ·) noted := by
  cases es with
  | empty opens closes =>
    refine .of_inner opens same fun between waiting held => ?_
    rcases List.map_eq_singleton_iff.mp held with ⟨last, rfl, rfl⟩
    exact ⟨_, _, .nil closes⟩
  | listed opens separated closes =>
    exact .of_inner opens same fun _ waiting held =>
      series_of_separated separated closes (.inl rfl) held waiting
  | trailing opens separated dvd closes =>
    exact .of_inner opens same fun _ waiting held =>
      series_of_separated separated closes (.inr ⟨_, dvd, rfl⟩) held waiting

theorem braced_of_body (bodied : BodyOf kw toks v) (same : noted.map Prod.snd = front ++ toks) :
    Braced front (BodyTold · kw · v · ·) noted := by
  cases bodied with
  | union es =>
    rcases braced_of_entries es same with ⟨_, _, _, _, _, rfl, opens, own, told⟩
    exact ⟨_, _, _, _, _, rfl, opens, own, .union told⟩
  | struct members =>
    rcases braced_of_members members same with ⟨_, _, _, _, _, rfl, opens, own, told⟩
    exact ⟨_, _, _, _, _, rfl, opens, own, .struct told⟩
  | table members =>
    rcases braced_of_members members same with ⟨_, _, _, _, _, rfl, opens, own, told⟩
    exact ⟨_, _, _, _, _, rfl, opens, own, .table told⟩
  | service members =>
    rcases braced_of_members members same with ⟨_, _, _, _, _, rfl, opens, own, told⟩
    exact ⟨_, _, _, _, _, rfl, opens, own, .service told⟩

theorem told_of_itemOf (means : ItemOf ns toks v) (same : noted.map Prod.snd = toks)
    (waiting : List String) : ∃ docs left, ItemTold waiting ns noted v docs left := by
  cases means with
  | directive directs =>
    cases same
    exact ⟨_, _, .directive directs⟩
  | declaration declares =>
    cases declares with
    | @enum word name colon typeToks attrToks _ _ _ _ begins named dvd typed attributed es =>
      rw [← List.append_assoc typeToks] at same
      have braced : Braced (word :: name :: colon :: (typeToks ++ attrToks)) _ noted :=
        braced_of_entries es same
      rcases braced with ⟨lead, used, between, docs, left, rfl, opens, own, told⟩
      rw [List.cons_append, List.cons_append, List.cons_append, List.append_assoc] at own
      exact ⟨_, _, .enum begins named dvd typed attributed opens own told⟩
    | @other word name attrToks _ _ _ _ begins named attributed bodied =>
      have braced : Braced (word :: name :: attrToks) _ noted := braced_of_body bodied same
      rcases braced with ⟨lead, used, between, docs, left, rfl, opens, own, told⟩
      exact ⟨_, _, .other begins named attributed opens own told⟩

theorem told_of_itemsOf (derives : ItemsOf ns toks vs) (same : noted.map Prod.snd = toks)
    (waiting : List String) :
    ∃ portions,
      Portions waiting ns portions ∧ portions.flatMap Portion.stretch = noted ∧
        (portions.filterMap Portion.item).map Prod.fst = vs := by
  induction derives generalizing noted waiting with
  | nil =>
    rw [List.map_eq_nil_iff.mp same]
    exact ⟨[], .nil, rfl, rfl⟩
  | semicolon lone _ ih =>
    rcases List.map_eq_cons_iff.mp same with ⟨first, rest, rfl, rfl, others⟩
    rcases ih others [] with ⟨portions, told, rfl, rfl⟩
    exact ⟨_, .semicolon lone told, rfl, rfl⟩
  | cons means _ ih =>
    rcases List.map_eq_append_iff.mp same with ⟨first, rest, rfl, own, others⟩
    rcases told_of_itemOf means own waiting with ⟨docs, left, tells⟩
    rcases ih others left with ⟨portions, told, rfl, rfl⟩
    exact ⟨_, .cons tells told, rfl, rfl⟩

end

/-- Where a state stands that faces tokens with documentation. -/
theorem at_noted (eof : s.last.kind = .eof) : At [] s [] s.noted s :=
  ⟨eof, rfl, List.suffix_rfl, [], [], (Noted.push_nil _).symm, rfl, rfl⟩

/-- What the tokens of a state derive is read with its documentation. -/
theorem items_portioned (derives : ItemsOf ns toks vs) (eof : s.last.kind = .eof)
    (faces : withoutDocs s.rest = toks) (read : List Item) :
    ∃ portions,
      Portions [] ns portions ∧ portions.flatMap Portion.stretch = s.noted ∧
        (portions.filterMap Portion.item).map Prod.fst = vs ∧
        (items ns read s).1.map Item.told = read.map Item.told ++ portions.filterMap Portion.item ∧
        (items ns read s).2 = s.reports := by
  rcases told_of_itemsOf derives (s.map_snd_noted.trans faces) [] with
    ⟨portions, told, noted, listed⟩
  grind [at_noted, items_gives]

theorem items_complete (derives : ItemsOf ns toks vs) (eof : s.last.kind = .eof)
    (faces : withoutDocs s.rest = toks) (read : List Item) :
    (items ns read s).1.map Item.plain = read.map Item.plain ++ vs ∧
      (items ns read s).2 = s.reports := by
  rcases items_portioned derives eof faces read with ⟨portions, _, _, listed, told, silent⟩
  have plain := congrArg (List.map Prod.fst) told
  rw [List.map_append, List.map_map, List.map_map, listed] at plain
  exact ⟨plain, silent⟩

/-- A state that faces told items reads these items, documentation included, and reports
nothing. -/
theorem items_told {vs : List Item} (told : Portions [] ns portions)
    (listed : portions.filterMap Portion.item = vs.map Item.told)
    (eof : s.last.kind = .eof) (faces : s.noted = portions.flatMap Portion.stretch) :
    (items ns [] s).1.map Item.unplaced = vs.map Item.unplaced ∧ (items ns [] s).2 = s.reports := by
  have here := at_noted eof
  rw [faces] at here
  rcases items_gives told here [] with ⟨read, silent⟩
  have restored (list : List Item) :
      list.map Item.unplaced = (list.map Item.told).map fun told => told.1.redocumented told.2 := by
    simp [Item.told, Item.redocumented_plain]
  grind

end Parser

end FlatSchema
