import FlatSchema.Schema
import FlatSchema.Token.Lexer

/-!
# From tokens to schemas

Parsing is by recursive descent over the unread tokens.  A construct that does
not fit its grammar is reported at the token where it fails and abandoned; a
failure inside the braces of a struct, table or service costs the member, any
other failure costs the item, and parsing goes on after it.

Documentation lines are collected whenever the next token is looked at and
wait there until a declaration or member takes them.  Every repetition is
measured by the number of unread tokens: a round that reads no token ends it.
-/

namespace FlatSchema

/-- The unread tokens, the waiting documentation and the reports so far. -/
structure ParserState where
  rest : List Token
  last : Token
  docs : List String
  reports : List Diagnostic
deriving Inhabited, Repr

/-- What a parser gives: a value, or the state in which it failed. -/
inductive Reply (α : Type) where
  | done (v : α) (s : ParserState)
  | failed (s : ParserState)

def Reply.andThen {α β : Type} (reply : Reply α) (next : α → ParserState → Reply β) : Reply β :=
  match reply with
  | .done v s => next v s
  | .failed s => .failed s

def Parser (α : Type) : Type :=
  ParserState → Reply α

instance : Monad Parser where
  pure v := fun s => .done v s
  bind parser next := fun s => (parser s).andThen fun v s => next v s

namespace Parser

/-- Take the documentation in front of other tokens. -/
def absorb : List String → List Token → List String × List Token
  | docs, [] => (docs, [])
  | docs, tok :: rest =>
    if tok.kind = .doc then absorb (docs ++ [tok.text]) rest else (docs, tok :: rest)

theorem length_absorb_le (docs : List String) (toks : List Token) :
    (absorb docs toks).2.length ≤ toks.length := by
  induction toks generalizing docs with
  | nil => simp [absorb]
  | cons tok rest ih =>
    simp only [absorb]
    split
    · exact Nat.le_succ_of_le (ih _)
    · exact Nat.le_refl _

/-- The state after looking at the next token. -/
def settle (s : ParserState) : ParserState :=
  let absorbed := absorb s.docs s.rest
  { s with docs := absorbed.1, rest := absorbed.2 }

theorem length_settle_le (s : ParserState) : (settle s).rest.length ≤ s.rest.length :=
  length_absorb_le s.docs s.rest

def head (s : ParserState) : Token :=
  s.rest.headD s.last

def current : Parser Token := fun s =>
  let settled := settle s
  .done (head settled) settled

/-- Reads the next token; the end of the file is never passed. -/
def advance : Parser Token := fun s =>
  let settled := settle s
  .done (head settled) { settled with rest := settled.rest.tail }

def takeDoc : Parser (List String) := fun s =>
  let settled := settle s
  .done settled.docs { settled with docs := [] }

def mismatch (expected hit : String) (span : Span) : Diagnostic :=
  { Diagnostic.errorAt "FBS200"
      (Text.ofString ("Expected " ++ expected ++ ", found " ++ hit ++ ".")) span with
    expected := some (Text.ofString expected), found := some (Text.ofString hit) }

def failAt {α : Type} (expected hit : String) (span : Span) : Parser α := fun s =>
  .failed { s with reports := s.reports ++ [mismatch expected hit span] }

def fail {α : Type} (expected : String) : Parser α := do
  let tok ← current
  failAt expected tok.describe tok.span

def isPunct (mark : Char) : Parser Bool := do
  let tok ← current
  return tok.isPunct mark

def eatPunct (mark : Char) : Parser Bool := do
  if ← isPunct mark then
    let _ ← advance
    return true
  else
    return false

def expectPunct (mark : Char) : Parser Token := do
  if ← isPunct mark then advance
  else fail ("\"" ++ mark.toString ++ "\"")

def expectIdent (what : String) : Parser (String × Span) := do
  let tok ← current
  if tok.kind = .ident then
    let _ ← advance
    return (tok.text, tok.span)
  else fail what

def isName (tok : Token) : Bool :=
  match tok.kind with
  | .ident | .keyword _ => true
  | _ => false

def expectName (what : String) : Parser (String × Span) := do
  let tok ← current
  if isName tok then
    let _ ← advance
    return (tok.text, tok.span)
  else fail what

def expectString (what : String) : Parser Text := do
  let tok ← current
  match tok.kind with
  | .string v =>
    let _ ← advance
    return v
  | _ => fail what

def nameTail (parts : List String) (span : Span) (s : ParserState) : Reply (List String × Span) :=
  let settled := settle s
  if (head settled).isPunct '.' then
    match expectIdent "identifier after \".\"" { settled with rest := settled.rest.tail } with
    | .failed next => .failed next
    | .done (part, partSpan) next =>
      if next.rest.length < s.rest.length then
        nameTail (parts ++ [part]) partSpan next
      else .failed next
  else .done (parts, span) settled
termination_by s.rest.length

def dottedParts (what : String) : Parser (List String × Span) := do
  let (first, firstSpan) ← expectIdent what
  let (parts, lastSpan) ← nameTail [first] firstSpan
  return (parts, Span.join firstSpan lastSpan)

def dottedName (what : String) : Parser (String × Span) := do
  let (parts, span) ← dottedParts what
  return (".".intercalate parts, span)

def namedType (name : String) (span : Span) : TypeExpr :=
  if name = "string" then .string span
  else
    match ScalarKind.ofSpelling? name with
    | some kind => .scalar kind span
    | none => .named name span

def typeName : Parser TypeExpr := do
  let tok ← current
  if tok.kind = .ident then
    let (name, span) ← dottedName "type"
    return namedType name span
  else fail "type"

def typeExpr (s : ParserState) : Reply TypeExpr :=
  match _opened : (settle s).rest with
  | [] => typeName (settle s)
  | opening :: post =>
    if opening.isPunct '[' then
      (typeExpr { settle s with rest := post }).andThen fun elem next =>
        (expectPunct ']' next).andThen fun closing final =>
          .done (.vector elem (Span.join opening.span closing.span)) final
    else typeName (settle s)
termination_by s.rest.length
decreasing_by
  have shorter := length_settle_le s
  rw [_opened, List.length_cons] at shorter
  exact shorter

/-- The sign that a token is, if it is one: whether it is a minus. -/
def signOf (tok : Token) : Option Bool :=
  if tok.isPunct '-' then some true
  else if tok.isPunct '+' then some false
  else none

def wordNumber? (word : String) : Option Double :=
  match word.toLower with
  | "nan" => some Double.nan
  | "inf" => some (Double.infinity false)
  | "infinity" => some (Double.infinity false)
  | _ => none

def signedLiteral? (neg : Bool) (tok : Token) : Option LiteralValue :=
  match tok.kind with
  | .int v => some (.int (if neg then -(v : Int) else v))
  | .float v => some (.float (if neg then v.negate else v))
  | .ident =>
    (wordNumber? tok.text).map fun v =>
      .float (if neg then v.negate else v)
  | _ => none

def plainLiteral? (tok : Token) : Option LiteralValue :=
  match tok.kind with
  | .keyword .trueWord => some (.bool true)
  | .keyword .falseWord => some (.bool false)
  | .string v => some (.string v)
  | .ident =>
    match wordNumber? tok.text with
    | some v => some (.float v)
    | none => some (.name tok.text)
  | _ => signedLiteral? false tok

/-- Reads a literal; only numbers take a sign. -/
def literal : Parser Literal := do
  let first ← current
  match signOf first with
  | some neg =>
    let _ ← advance
    let tok ← current
    match signedLiteral? neg tok with
    | some v =>
      let _ ← advance
      return ⟨v, Span.join first.span tok.span⟩
    | none => fail "number"
  | none =>
    match plainLiteral? first with
    | some v =>
      let _ ← advance
      return ⟨v, first.span⟩
    | none => fail "literal"

def attributeEntry : Parser Attribute := do
  let (name, span) ← expectName "attribute name"
  if ← eatPunct ':' then
    let v ← literal
    return ⟨name, some v, Span.join span v.span⟩
  else
    return ⟨name, none, span⟩

def attributeTail (attrs : List Attribute) (s : ParserState) : Reply (List Attribute) :=
  (attributeEntry s).andThen fun e afterEntry =>
    (eatPunct ',' afterEntry).andThen fun more next =>
      if more then
        if next.rest.length < s.rest.length then attributeTail (attrs ++ [e]) next
        else .failed next
      else
        (expectPunct ')' next).andThen fun _ final => .done (attrs ++ [e]) final
termination_by s.rest.length

def attributeList : Parser (List Attribute) := do
  if ← eatPunct '(' then
    if ← eatPunct ')' then return []
    else attributeTail []
  else return []

/-- Skips to after the end of a member, or to before the closing brace of its body. -/
def recoverMember (s : ParserState) : ParserState :=
  match _opened : (settle s).rest with
  | [] => settle s
  | tok :: post =>
    if tok.isPunct '}' then settle s
    else if tok.isPunct ';' then { settle s with rest := post }
    else recoverMember { settle s with rest := post }
termination_by s.rest.length
decreasing_by
  have shorter := length_settle_le s
  rw [_opened, List.length_cons] at shorter
  exact shorter

def startsItem (tok : Token) : Bool :=
  match tok.kind with
  | .keyword kw => kw.startsItem
  | _ => false

/-- Skips to before the next item, or to after the brace that closes the last open one. -/
def recoverItem (depth : Nat) (s : ParserState) : ParserState :=
  match _opened : (settle s).rest with
  | [] => settle s
  | tok :: post =>
    if depth = 0 && startsItem tok then settle s
    else if tok.isPunct '{' then recoverItem (depth + 1) { settle s with rest := post }
    else if tok.isPunct '}' then
      if depth ≤ 1 then { settle s with rest := post }
      else recoverItem (depth - 1) { settle s with rest := post }
    else recoverItem depth { settle s with rest := post }
termination_by s.rest.length
decreasing_by
  all_goals
    have shorter := length_settle_le s
    rw [_opened, List.length_cons] at shorter
    exact shorter

/-- Reads members up to the closing brace; a member that fails is skipped. -/
def members {α : Type} (mem : Parser α) (read : List α) (s : ParserState) : Reply (List α × Span) :=
  let settled := settle s
  let tok := head settled
  if tok.isPunct '}' then
    .done (read, tok.span) { settled with rest := settled.rest.tail, docs := [] }
  else if tok.isEof then fail "\"\x7d\"" settled
  else
    let round : List α × ParserState :=
      match mem settled with
      | .done v next => (read ++ [v], next)
      | .failed next => (read, recoverMember { next with docs := [] })
    if round.2.rest.length < s.rest.length then members mem round.1 round.2
    else .failed round.2
termination_by s.rest.length

/-- Members in braces, with the span of the closing brace. -/
def body {α : Type} (mem : Parser α) : Parser (List α × Span) := do
  let _ ← expectPunct '{'
  members mem []

/-- Reads entries divided by commas up to the closing brace; a last comma is allowed. -/
def entries {α : Type} (e : Parser α) (read : List α) (s : ParserState) : Reply (List α × Span) :=
  let settled := settle s
  let tok := head settled
  if tok.isPunct '}' then
    .done (read, tok.span) { settled with rest := settled.rest.tail, docs := [] }
  else
    (e settled).andThen fun v afterEntry =>
      (eatPunct ',' afterEntry).andThen fun more next =>
        if more then
          if next.rest.length < s.rest.length then entries e (read ++ [v]) next
          else .failed next
        else
          (expectPunct '}' next).andThen fun closing final =>
            .done (read ++ [v], closing.span) final
termination_by s.rest.length

def commaList {α : Type} (e : Parser α) : Parser (List α × Span) := do
  let _ ← expectPunct '{'
  entries e []

/-- A field: its name, type, default and attributes. -/
def field : Parser Field := do
  let doc ← takeDoc
  let (name, span) ← expectName "field name"
  let _ ← expectPunct ':'
  let ty ← typeExpr
  let fallback ← (do if ← eatPunct '=' then some <$> literal else pure none)
  let attrs ← attributeList
  let semi ← expectPunct ';'
  return ⟨name, ty, fallback, attrs, doc, Span.join span semi.span⟩

def method : Parser Method := do
  let doc ← takeDoc
  let (name, span) ← expectIdent "method name"
  let _ ← expectPunct '('
  let (req, _) ← dottedName "request type"
  let _ ← expectPunct ')'
  let _ ← expectPunct ':'
  let (resp, _) ← dottedName "response type"
  let attrs ← attributeList
  let semi ← expectPunct ';'
  return ⟨name, req, resp, attrs, doc, Span.join span semi.span⟩

def enumNumber : Parser (Int × Span) := do
  let num ← literal
  match num.value with
  | .int v => return (v, num.span)
  | .name name => failAt "integer" ("\"" ++ name ++ "\"") num.span
  | _ => failAt "integer" "non-integer literal" num.span

def enumValue : Parser EnumValue := do
  let doc ← takeDoc
  let (name, span) ← expectIdent "enum value name"
  if ← eatPunct '=' then
    let (v, valueSpan) ← enumNumber
    return ⟨name, some v, doc, Span.join span valueSpan⟩
  else
    return ⟨name, none, doc, Span.join span span⟩

def variant : Parser Variant := do
  let doc ← takeDoc
  let (name, span) ← dottedName "union variant type"
  return ⟨name, doc, span⟩

def enumDecl (start : Span) (doc ns : List String) : Parser Decl := do
  let (name, _) ← expectIdent "enum name"
  let _ ← expectPunct ':'
  let base ← typeExpr
  let attrs ← attributeList
  let (vs, close) ← commaList enumValue
  return ⟨name, ns, doc, attrs, .enum base vs, Span.join start close⟩

def unionDecl (start : Span) (doc ns : List String) : Parser Decl := do
  let (name, _) ← expectIdent "union name"
  let attrs ← attributeList
  let (alts, close) ← commaList variant
  return ⟨name, ns, doc, attrs, .union alts, Span.join start close⟩

def structDecl (start : Span) (doc ns : List String) : Parser Decl := do
  let (name, _) ← expectIdent "struct name"
  let attrs ← attributeList
  let (fs, close) ← body field
  return ⟨name, ns, doc, attrs, .struct fs, Span.join start close⟩

def tableDecl (start : Span) (doc ns : List String) : Parser Decl := do
  let (name, _) ← expectIdent "table name"
  let attrs ← attributeList
  let (fs, close) ← body field
  return ⟨name, ns, doc, attrs, .table fs, Span.join start close⟩

def serviceDecl (start : Span) (doc ns : List String) : Parser Decl := do
  let (name, _) ← expectIdent "service name"
  let attrs ← attributeList
  let (methods, close) ← body method
  return ⟨name, ns, doc, attrs, .service methods, Span.join start close⟩

def stringDirective (start : Span) : Parser (Text × Span) := do
  let v ← expectString "string literal"
  let semi ← expectPunct ';'
  return (v, Span.join start semi.span)

def scopeDirective (start : Span) : Parser Item := do
  let parts ← (do if ← isPunct ';' then pure [] else Prod.fst <$> dottedParts "namespace name")
  let semi ← expectPunct ';'
  return .enterScope parts (Span.join start semi.span)

def attributeDirective (start : Span) : Parser Item := do
  let tok ← current
  let name ←
    (match tok.kind with
    | .string v => do
        let _ ← advance
        pure v
    | _ => do
        let (plain, _) ← expectIdent "attribute name"
        pure (Text.ofString plain))
  let semi ← expectPunct ';'
  return .declareAttribute name (Span.join start semi.span)

def rootDirective (start : Span) (ns : List String) : Parser Item := do
  let (name, _) ← dottedName "root type name"
  let semi ← expectPunct ';'
  return .rootType name ns (Span.join start semi.span)

def itemAfter (kw : Keyword) (start : Span) (doc ns : List String) : Parser Item :=
  match kw with
  | .namespaceWord => scopeDirective start
  | .includeWord => do
      let (path, span) ← stringDirective start
      return .includeFile path span
  | .attributeWord => attributeDirective start
  | .rootTypeWord => rootDirective start ns
  | .fileIdentifierWord => do
      let (v, span) ← stringDirective start
      return .fileIdentifier v span
  | .fileExtensionWord => do
      let (v, span) ← stringDirective start
      return .fileExtension v span
  | .enumWord => .declaration <$> enumDecl start doc ns
  | .unionWord => .declaration <$> unionDecl start doc ns
  | .structWord => .declaration <$> structDecl start doc ns
  | .tableWord => .declaration <$> tableDecl start doc ns
  | .serviceWord => .declaration <$> serviceDecl start doc ns
  | .trueWord | .falseWord => fail "declaration"

/-- A directive or a declaration, nothing for a stray semicolon. -/
def item (ns : List String) : Parser (Option Item) := do
  let doc ← takeDoc
  let tok ← current
  if tok.isPunct ';' then
    let _ ← advance
    return none
  else
    match tok.kind with
    | .keyword kw =>
      if kw.startsItem then
        let _ ← advance
        some <$> itemAfter kw tok.span doc ns
      else fail "declaration"
    | _ => fail "declaration"

/-- Reads items up to the end of the file; an item that fails is skipped. -/
def items (ns : List String) (read : List Item) (s : ParserState) : List Item × List Diagnostic :=
  let settled := settle s
  if (head settled).isEof then (read, settled.reports)
  else
    let round : List Item × ParserState :=
      match item ns settled with
      | .done (some v) next => ([v], next)
      | .done none next => ([], next)
      | .failed next => ([], recoverItem 0 { next with docs := [] })
    if round.2.rest.length < s.rest.length then
      items (round.1.foldl Item.scopeAfter ns) (read ++ round.1) round.2
    else (read, round.2.reports)
termination_by s.rest.length

def start (toks : List Token) : ParserState :=
  ⟨toks.dropLast, toks.getLastD default, [], []⟩

end Parser

/-- What parsing a source gives: a schema unless its text has no tokens, and the reports. -/
structure Parsed where
  schema : Option Schema
  diagnostics : List Diagnostic
deriving Inhabited, Repr

/-- Parses a source; after a report the schema holds what recovery kept. -/
def Source.parse (src : Source) : Parsed :=
  match src.tokens with
  | .error d => ⟨none, [d]⟩
  | .ok toks =>
    let (items, reports) := Parser.items [] [] (Parser.start toks)
    ⟨some ⟨src.path, items, src.wholeSpan⟩, reports⟩

end FlatSchema
