import FlatSchema.Proofs.Parsing

/-!
# What is grammatical is parsed

A state of the parser faces tokens with the documentation that stands before
each of them.  Reading tokens moves the documentation of those that are read
to the next token, where it waits to be taken.

Each construct succeeds on tokens that derive something, with what they
derive, as long as the token behind them does not continue the construct.
-/

namespace FlatSchema

variable {marks : List Char} {α : Type} {parts : List String}

open Grammar

/-! ## Tokens with their documentation -/

/-- A token and the documentation before it. -/
abbrev Noted : Type := List String × Token

namespace Noted

/-- Tokens with the documentation before each of them, some of it already waiting. -/
def ofTokens : List String → List Token → List Noted
  | _, [] => []
  | docs, tok :: rest =>
    if tok.kind = .doc then ofTokens (docs ++ [tok.text]) rest
    else (docs, tok) :: ofTokens [] rest

/-- Puts documentation before the next token. -/
def push (docs : List String) : List Noted → List Noted
  | [] => []
  | (own, tok) :: rest => (docs ++ own, tok) :: rest

theorem ofTokens_eq_push (docs : List String) (toks : List Token) :
    ofTokens docs toks = push docs (ofTokens [] toks) := by
  induction toks generalizing docs with
  | nil => rfl
  | cons tok rest ih =>
    by_cases isDoc : tok.kind = .doc
    · simp only [ofTokens, isDoc, if_true]
      rw [ih (docs ++ [tok.text]), ih ([] ++ [tok.text])]
      rcases ofTokens [] rest with _ | ⟨⟨own, next⟩, others⟩
      · rfl
      · simp [push]
    · simp [ofTokens, isDoc, push]

theorem map_snd_ofTokens (docs : List String) (toks : List Token) :
    (ofTokens docs toks).map Prod.snd = withoutDocs toks := by
  induction toks generalizing docs with
  | nil => rfl
  | cons tok rest ih =>
    grind [withoutDocs, ofTokens]

variable (noted : List Noted)

theorem push_nil : push [] noted = noted := by
  cases noted <;> rfl

theorem map_snd_push (docs : List String) (noted : List Noted) :
    (push docs noted).map Prod.snd = noted.map Prod.snd := by
  cases noted <;> rfl

/-- The documentation before the first of some tokens. -/
def first : List String :=
  (noted.head?.map Prod.fst).getD []

/-- The documentation before tokens, that of the first apart. -/
def behind : List String :=
  noted.tail.flatMap Prod.fst

end Noted

/-- What a state still faces. -/
def ParserState.noted (s : ParserState) : List Noted :=
  Noted.ofTokens s.docs s.rest

theorem ParserState.map_snd_noted (s : ParserState) : s.noted.map Prod.snd = withoutDocs s.rest :=
  Noted.map_snd_ofTokens s.docs s.rest

namespace Parser

theorem ofTokens_absorb (docs : List String) (toks : List Token) :
    Noted.ofTokens (absorb docs toks).1 (absorb docs toks).2 = Noted.ofTokens docs toks := by
  induction toks generalizing docs with
  | nil => rfl
  | cons tok rest ih =>
    grind [absorb, Noted.ofTokens]

variable (s : ParserState)

theorem noted_settle : (settle s).noted = s.noted :=
  ofTokens_absorb s.docs s.rest

/-- A state that faces a token has it next, with its documentation waiting. -/
theorem settle_of_noted {s : ParserState} (faces : s.noted = (docs, tok) :: others) :
    (settle s).docs = docs ∧
      ∃ rest,
        (settle s).rest = tok :: rest ∧ tok.kind ≠ .doc ∧ Noted.ofTokens [] rest = others := by
  rw [← noted_settle, ParserState.noted] at faces
  rcases head_settle_cases s with ⟨empty, _⟩ | ⟨other, rest, hit, _, plain⟩
  · rw [empty] at faces
    cases faces
  grind [settle, Noted.ofTokens, head]

theorem rest_of_facing {s : ParserState} (faces : withoutDocs s.rest = tok :: more) :
    ∃ rest, (settle s).rest = tok :: rest := by
  rw [← s.map_snd_noted] at faces
  rcases List.map_eq_cons_iff.mp faces with ⟨⟨docs, _⟩, others, noted, rfl, _⟩
  grind [settle_of_noted]

theorem head_of_facing {s : ParserState} (faces : withoutDocs s.rest = tok :: more) :
    head (settle s) = tok := by
  grind [rest_of_facing, head]

/-- The state after the waiting documentation has been taken. -/
def untold : ParserState :=
  { settle s with docs := [] }

theorem takeDoc_run : takeDoc s = .done (settle s).docs (untold s) :=
  rfl

/-- Closing a body drops the documentation that waits. -/
def close : ParserState :=
  { step s with docs := [] }

/-- Reading a token moves its documentation to the next one, taking its documentation leaves the
token without any, and closing a body drops it. -/
theorem noted_of_noted {s : ParserState} (faces : s.noted = (docs, tok) :: others) :
    (step s).noted = Noted.push docs others ∧ (untold s).noted = ([], tok) :: others ∧
      (close s).noted = others := by
  rcases settle_of_noted faces with ⟨waiting, rest, hit, plain, rfl⟩
  have tail : (settle s).rest.tail = rest := by rw [hit, List.tail_cons]
  refine ⟨?_, ?_, ?_⟩
  · rw [← Noted.ofTokens_eq_push, ← waiting, ← tail]
    rfl
  · rw [ParserState.noted, untold, hit, Noted.ofTokens, if_neg plain]
  · rw [← tail]
    rfl

end Parser

/-! ## Where a state stands -/

/-- A state that comes after another without a report and stands before tokens of a construct and
what is behind it.  Once the tokens are read, the documentation waits. -/
structure At (docs : List String) (src : ParserState) (toks : List Token) (more : List Noted)
    (s : ParserState) : Prop where
  eof : s.last.kind = .eof
  reports_eq : s.reports = src.reports
  isSuffix : s.rest <:+ src.rest
  faces :
    ∃ carry used,
      s.noted = Noted.push carry (used ++ more) ∧ used.map Prod.snd = toks ∧
        carry ++ used.flatMap Prod.fst = docs

namespace At

variable {docs : List String} {src s next : ParserState} {tok : Token} {toks rest : List Token}
  {more used : List Noted}

theorem facing (here : At docs src toks more s) :
    withoutDocs s.rest = toks ++ more.map Prod.snd := by
  rcases here.faces with ⟨carry, used, noted, rfl, _⟩
  rw [← s.map_snd_noted, noted, Noted.map_snd_push, List.map_append]

theorem fresh (here : At docs src toks more s) : At docs s toks more s :=
  ⟨here.eof, rfl, List.suffix_rfl, here.faces⟩

theorem via (fst : At docs src toks more s) (snd : At later s rest others next) :
    At later src rest others next :=
  ⟨snd.eof, snd.reports_eq.trans fst.reports_eq, snd.isSuffix.trans fst.isSuffix, snd.faces⟩

theorem settle (here : At docs src toks more s) : At docs src toks more (Parser.settle s) where
  eof := here.eof
  reports_eq := here.reports_eq
  isSuffix := (Passes.settle s).isSuffix.trans here.isSuffix
  faces := by
    rw [Parser.noted_settle]
    exact here.faces

theorem head (here : At docs src (tok :: toks) more s) : Parser.head (Parser.settle s) = tok :=
  Parser.head_of_facing here.facing

theorem step (here : At docs src (tok :: toks) more s) : At docs src toks more (Parser.step s) := by
  rcases here.faces with ⟨carry, used, noted, split, rfl⟩
  rcases List.map_eq_cons_iff.mp split with ⟨⟨own, _⟩, used, rfl, rfl, rfl⟩
  refine ⟨here.eof, here.reports_eq, ?_, carry ++ own, used, ?_, rfl, ?_⟩
  · exact (List.tail_suffix _).trans ((Passes.settle s).isSuffix.trans here.isSuffix)
  · exact (Parser.noted_of_noted noted).1
  · rw [List.flatMap_cons, List.append_assoc]

/-- What is behind a construct may be the tokens of the next. -/
theorem take (here : At docs src [] (used ++ more) s) :
    At (docs ++ used.flatMap Prod.fst) src (used.map Prod.snd) more s := by
  rcases here.faces with ⟨carry, none, noted, empty, rfl⟩
  cases List.map_eq_nil_iff.mp empty
  exact ⟨here.eof, here.reports_eq, here.isSuffix, carry, used, noted, rfl, by simp⟩

/-- Documentation that waits is taken together with that of the next token. -/
theorem untold (here : At docs src [] (used ++ more) s) (split : used.map Prod.snd = tok :: toks) :
    (Parser.settle s).docs = docs ++ Noted.first used ∧
      At (Noted.behind used) src (tok :: toks) more (Parser.untold s) := by
  rcases here.faces with ⟨carry, none, noted, empty, rfl⟩
  cases List.map_eq_nil_iff.mp empty
  rcases List.map_eq_cons_iff.mp split with ⟨⟨own, tok⟩, used, rfl, rfl, rfl⟩
  refine ⟨(Parser.settle_of_noted noted).1.trans (by simp [Noted.first]), here.eof,
    here.reports_eq, (Passes.settle s).isSuffix.trans here.isSuffix, [], ([], tok) :: used, ?_, rfl,
    rfl⟩
  rw [(Parser.noted_of_noted noted).2.1]
  rfl

/-- Closing a body leaves what stands behind its brace. -/
theorem close {last : Noted} (here : At docs src [] (last :: more) s) :
    At [] src [] more (Parser.close s) := by
  rcases here.faces with ⟨carry, none, noted, empty, rfl⟩
  cases List.map_eq_nil_iff.mp empty
  refine ⟨here.eof, here.reports_eq, ?_, [], [], ?_, rfl, rfl⟩
  · exact (List.tail_suffix _).trans ((Passes.settle s).isSuffix.trans here.isSuffix)
  · rw [(Parser.noted_of_noted noted).2.2, Noted.push_nil]
    rfl

/-- Standing before fewer tokens is standing before fewer unread tokens. -/
theorem length_lt (fst : At docs src toks more s) (snd : At later s rest others next)
    (fewer : rest.length + others.length < toks.length + more.length) :
    next.rest.length < s.rest.length := by
  apply Nat.lt_of_le_of_ne snd.isSuffix.length_le
  intro same
  have facing := snd.facing
  rw [snd.isSuffix.eq_of_length same, fst.facing] at facing
  have lengths := congrArg List.length facing
  grind

end At

/-- A construct succeeds with a value and a state of which something holds. -/
def Succeeds {α : Type} (holds : α → ParserState → Prop) : Reply α → Prop
  | .done v post => holds v post
  | .failed _ => False

/-- A construct succeeds with a value of which something holds and leaves the rest. -/
def Gives {α : Type} (docs : List String) (src : ParserState) (rest : List Token)
    (more : List Noted) (holds : α → Prop) : Reply α → Prop :=
  Succeeds fun v post => holds v ∧ At docs src rest more post

variable {holds : α → ParserState → Prop}

theorem Succeeds.andThen {later : β → ParserState → Prop} (first : Succeeds holds reply)
    (goesOn : ∀ v post, holds v post → Succeeds later (next v post)) :
    Succeeds later (reply.andThen next) := by
  cases reply with
  | done v post => exact goesOn v post first
  | failed _ => exact first.elim

theorem Succeeds.exists (succeeds : Succeeds holds reply) :
    ∃ v post, reply = .done v post ∧ holds v post := by
  cases reply with
  | done v post => exact ⟨v, post, rfl, succeeds⟩
  | failed _ => exact succeeds.elim

theorem Succeeds.imp (succeeds : Succeeds holds reply)
    (gives : ∀ v post, holds v post → weaker v post) : Succeeds weaker reply := by
  cases reply with
  | done v post => exact gives v post succeeds
  | failed _ => exact succeeds

/-- The next of some tokens is none of some marks. -/
def Clear (marks : List Char) (toks : List Token) : Prop :=
  ∀ tok ∈ toks.head?, ∀ mark ∈ marks, tok.isPunct mark = false

theorem Token.isPunct_of_kind {tok : Token} {kind : TokenClass} (isKind : tok.kind = kind)
    (plain : ∀ mark, kind ≠ .punct mark) (mark : Char) : tok.isPunct mark = false := by
  apply decide_eq_false
  rw [isKind]
  exact plain mark

theorem Clear.none (toks : List Token) : Clear [] toks :=
  fun _ _ _ mem => nomatch mem

theorem Clear.cons (isMark : tok.isPunct mark) (other : mark ∉ marks)
    (more : List Token) : Clear marks (tok :: more) := by
  grind [Clear, Token.isPunct]

namespace Parser

variable {mark : Char} {docs : List String} {src s : ParserState} {tok : Token}
  {toks rest : List Token} {more : List Noted}

/-! ## Single tokens -/

theorem expectPunct_gives (here : At docs src (tok :: toks) more s) (isMark : tok.isPunct mark) :
    Gives docs src toks more (· = tok) (expectPunct mark s) := by
  rw [expectPunct_run, here.head, if_pos isMark]
  exact ⟨rfl, here.step⟩

theorem eatPunct_gives (here : At docs src (tok :: toks) more s) (isMark : tok.isPunct mark) :
    Gives docs src toks more (· = true) (eatPunct mark s) := by
  rw [eatPunct_run, here.head, if_pos isMark]
  exact ⟨rfl, here.step⟩

/-- A state whose next token is not a mark, if only because there is none. -/
theorem head_isPunct_of_clear (here : At docs src toks more s)
    (clear : Clear [mark] (toks ++ more.map Prod.snd)) :
    (head (settle s)).isPunct mark = false := by
  rcases head_settle_cases s with ⟨_, isLast⟩ | ⟨hit, rest, isRest, isHead, plain⟩
  · rw [isLast]
    exact Token.isPunct_of_kind here.eof (fun _ => TokenClass.noConfusion) mark
  · rw [isHead]
    apply clear hit ?_ mark (List.mem_singleton_self mark)
    rw [← here.settle.facing, isRest, withoutDocs_cons plain]
    rfl

theorem eatPunct_absent (here : At docs src toks more s)
    (clear : Clear [mark] (toks ++ more.map Prod.snd)) :
    Gives docs src toks more (· = false) (eatPunct mark s) := by
  rw [eatPunct_run, head_isPunct_of_clear here clear]
  exact ⟨rfl, here.settle⟩

theorem expectIdent_gives (what : String) (here : At docs src (tok :: toks) more s)
    (ident : tok.kind = .ident) :
    Gives docs src toks more (· = (tok.text, tok.span)) (expectIdent what s) := by
  rw [expectIdent_run, here.head, if_pos ident]
  exact ⟨rfl, here.step⟩

theorem expectName_gives (what : String) (here : At docs src (tok :: toks) more s)
    (named : MayName tok) :
    Gives docs src toks more (· = (tok.text, tok.span)) (expectName what s) := by
  rw [expectName_run, here.head, if_pos (isName_iff.mpr named)]
  exact ⟨rfl, here.step⟩

theorem expectString_gives (what : String) (here : At docs src (tok :: toks) more s)
    (quoted : tok.kind = .string v) : Gives docs src toks more (· = v) (expectString what s) := by
  rw [expectString_run, here.head, quoted]
  exact ⟨rfl, here.step⟩

theorem isPunct_of_mayName (named : MayName tok) (mark : Char) : tok.isPunct mark = false := by
  grind [Token.isPunct, MayName]

/-! ## Names, types and literals -/

/-- A construct succeeds on what derives a value, unless one of some marks follows. -/
def Complete {α β : Type} (parser : Parser α) (view : α → β) (means : List Token → β → Prop)
    (marks : List Char) : Prop :=
  ∀ {docs : List String} {src s : ParserState} {toks rest : List Token} {more : List Noted}
    {v : β},
    At docs src (toks ++ rest) more s → means toks v →
      Clear marks (rest ++ more.map Prod.snd) →
        Gives docs src rest more (view · = v) (parser s)

theorem path_cases (path : Path toks parts) :
    ∃ name tail others, toks = name :: tail ∧ name.kind = .ident ∧ parts = name.text :: others := by
  cases path with
  | last ident => exact ⟨_, _, _, rfl, ident, rfl⟩
  | cons ident dvd rest => exact ⟨_, _, _, rfl, ident, rfl⟩

theorem nameTail_gives (path : Path toks parts) (here : At docs src (toks.tail ++ rest) more s)
    (clear : Clear ['.'] (rest ++ more.map Prod.snd)) (read : List String) (span : Span) :
    Gives docs src rest more (·.1 = read ++ parts.tail) (nameTail read span s) := by
  induction path generalizing s read span with
  | last ident =>
    rw [nameTail_run, head_isPunct_of_clear here clear]
    exact ⟨(List.append_nil _).symm, here.settle⟩
  | @cons name point toks parts ident dvd path ih =>
    rcases path_cases path with ⟨next, tail, others, rfl, isIdent, rfl⟩
    rw [nameTail_run, here.head, if_pos dvd]
    refine (expectIdent_gives _ here.fresh.step isIdent).andThen ?_
    rintro _ mid ⟨rfl, later⟩
    rw [if_pos (here.length_lt later (by simp <;> omega))]
    refine (ih (here.via later) (read ++ [next.text]) next.span).imp ?_
    grind

theorem complete_dottedParts (what : String) : Complete (dottedParts what) Prod.fst Path ['.'] := by
  intro docs src s toks rest more parts here path clear
  rcases path_cases path with ⟨name, tail, others, rfl, ident, rfl⟩
  refine (expectIdent_gives what here ident).andThen ?_
  rintro _ mid ⟨rfl, here⟩
  refine (nameTail_gives path here clear [name.text] name.span).andThen ?_
  rintro ⟨parts, span⟩ post ⟨parts_eq, here⟩
  exact ⟨parts_eq, here⟩

/-- A dotted name as it is written. -/
def Written (toks : List Token) (name : String) : Prop :=
  ∃ parts, Path toks parts ∧ name = ".".intercalate parts

theorem complete_dottedName (what : String) :
    Complete (dottedName what) Prod.fst Written ['.'] := by
  rintro docs src s toks rest more _ here ⟨parts, path, rfl⟩ clear
  refine (complete_dottedParts what here path clear).andThen ?_
  rintro ⟨hit, span⟩ post ⟨rfl, here⟩
  exact ⟨rfl, here⟩

theorem complete_typeExpr : Complete typeExpr TypeExpr.unplaced TypeOf ['.'] := by
  intro docs src s toks rest more ty here typed clear
  induction typed generalizing s rest with
  | @named toks parts path =>
    rcases path_cases path with ⟨name, tail, others, rfl, ident, rfl⟩
    have isHead := here.head
    have named : Gives docs src rest more
        (·.unplaced = namedType (".".intercalate (name.text :: others)) default)
        (typeName (settle s)) := by
      rw [typeName, bind_run]
      simp only [current, settle_settle, Reply.andThen]
      rw [isHead, if_pos ident]
      refine (complete_dottedName "type" here.settle ⟨_, path, rfl⟩ clear).andThen ?_
      rintro ⟨hit, span⟩ post ⟨rfl, here⟩
      exact ⟨unplaced_namedType _ span, here⟩
    rw [typeExpr]
    split
    · exact named
    simp_all [head, Token.isPunct_of_kind]
  | @vector lead closing toks elem opens inner closes ih =>
    rw [List.cons_append, List.append_assoc] at here
    rcases rest_of_facing here.facing with ⟨post, isRest⟩
    rw [typeExpr]
    split
    · grind
    · next hit behind same =>
        cases same.symm.trans isRest
        have stepped : { settle s with rest := post } = step s := by
          rw [step, isRest]
          rfl
        rw [if_pos opens, stepped]
        refine (ih here.step (.cons closes (by decide) _)).andThen ?_
        rintro elem mid ⟨rfl, here⟩
        refine (expectPunct_gives here closes).andThen ?_
        rintro _ post ⟨_, here⟩
        exact ⟨rfl, here⟩

/-- A literal of a single token does not begin with a sign. -/
theorem signOf_eq_none (means : LiteralOf [tok] v) : signOf tok = none := by
  cases signed : signOf tok with
  | none => rfl
  | some negative =>
    have kind : tok.kind = .punct (if negative then '-' else '+') :=
      of_decide_eq_true (signOf_eq_some_iff.mp signed)
    have hit := plainLiteral?_eq_some_iff.mpr means
    simp [plainLiteral?, signedLiteral?, kind] at hit

theorem literal_of_single (here : At docs src (tok :: rest) more s) (means : LiteralOf [tok] v) :
    Gives docs src rest more (·.value = v) (literal s) := by
  rw [literal, bind_run]
  simp only [current, Reply.andThen]
  rw [here.head, signOf_eq_none means]
  simp only [plainLiteral?_eq_some_iff.mpr means, bind_run, advance_run, step_settle, Reply.andThen]
  exact ⟨rfl, here.step⟩

theorem literal_of_signed (negative : Bool) (here : At docs src (sign :: tok :: rest) more s)
    (isSign : sign.isPunct (if negative then '-' else '+')) (means : NumberOf tok num) :
    Gives docs src rest more (·.value = if negative then negated num else num) (literal s) := by
  rw [literal, bind_run]
  simp only [current, Reply.andThen]
  rw [here.head, signOf_eq_some_iff.mpr isSign]
  simp only [bind_run, advance_run, step_settle, Reply.andThen, current]
  rw [here.step.head, signedLiteral?_eq_some_iff.mpr ⟨_, means, rfl⟩]
  simp only [bind_run, advance_run, step_settle, Reply.andThen]
  exact ⟨rfl, here.step.step⟩

theorem complete_literal : Complete literal Literal.value LiteralOf [] := by
  intro docs src s toks rest more v here means _
  cases means with
  | number num => exact literal_of_single here (.number num)
  | plus isSign num => exact literal_of_signed false here isSign num
  | minus isSign num => exact literal_of_signed true here isSign num
  | bool word => exact literal_of_single here (.bool word)
  | string quoted => exact literal_of_single here (.string quoted)
  | name ident plain => exact literal_of_single here (.name ident plain)

/-! ## Attributes and defaults -/

theorem complete_attributeEntry : Complete attributeEntry Attribute.unplaced AttributeOf [':'] := by
  intro docs src s toks rest more own here means clear
  cases means with
  | plain named =>
    refine (expectName_gives _ here named).andThen ?_
    rintro _ mid ⟨rfl, here⟩
    refine (eatPunct_absent here clear).andThen ?_
    rintro _ post ⟨rfl, here⟩
    exact ⟨rfl, here⟩
  | valued named dvd lit =>
    refine (expectName_gives _ here named).andThen ?_
    rintro _ mid ⟨rfl, here⟩
    refine (eatPunct_gives here dvd).andThen ?_
    rintro _ next ⟨rfl, here⟩
    refine (complete_literal here lit (.none _)).andThen ?_
    rintro hit post ⟨rfl, here⟩
    exact ⟨rfl, here⟩

theorem attributeTail_gives (separated : Separated AttributeOf toks attrs)
    (here : At docs src (toks ++ closing :: rest) more s) (closes : closing.isPunct ')')
    (read : List Attribute) :
    Gives docs src rest more (·.map Attribute.unplaced = read.map Attribute.unplaced ++ attrs)
      (attributeTail read s) := by
  induction separated generalizing s read with
  | @last toks own elem =>
    rw [attributeTail]
    refine (complete_attributeEntry here elem (.cons closes (by decide) _)).andThen ?_
    rintro hit mid ⟨rfl, here⟩
    refine (eatPunct_absent here (.cons closes (by decide) _)).andThen ?_
    rintro _ next ⟨rfl, here⟩
    refine (expectPunct_gives here closes).andThen ?_
    rintro _ post ⟨_, here⟩
    exact ⟨List.map_append, here⟩
  | @cons hd others comma own attrs elem dvd _ ih =>
    rw [List.append_assoc] at here
    rw [attributeTail]
    refine (complete_attributeEntry here.fresh elem (.cons dvd (by decide) _)).andThen ?_
    rintro hit mid ⟨rfl, later⟩
    refine (eatPunct_gives later dvd).andThen ?_
    rintro _ next ⟨rfl, later⟩
    rw [if_pos (here.length_lt later (by simp <;> omega))]
    refine (ih (here.via later) (read ++ [hit])).imp ?_
    grind

theorem clear_attributes (separated : Separated AttributeOf toks attrs) (marks : List Char)
    (rest behind : List Token) : Clear marks (toks ++ rest ++ behind) := by
  have named : ∃ name tail, toks = name :: tail ∧ MayName name := by
    cases separated with
    | last elem =>
      cases elem with
      | plain named => exact ⟨_, _, rfl, named⟩
      | valued named => exact ⟨_, _, rfl, named⟩
    | cons elem =>
      cases elem with
      | plain named => exact ⟨_, _, rfl, named⟩
      | valued named => exact ⟨_, _, rfl, named⟩
  grind [isPunct_of_mayName, Clear, MayName]

theorem complete_attributeList :
    Complete attributeList (List.map Attribute.unplaced) AttributesOf ['('] := by
  intro docs src s toks rest more attrs here means clear
  cases means with
  | absent =>
    refine (eatPunct_absent here clear).andThen ?_
    rintro _ post ⟨rfl, here⟩
    exact ⟨rfl, here⟩
  | empty opens closes =>
    refine (eatPunct_gives here opens).andThen ?_
    rintro _ mid ⟨rfl, here⟩
    refine (eatPunct_gives here closes).andThen ?_
    rintro _ post ⟨rfl, here⟩
    exact ⟨rfl, here⟩
  | listed opens es closes =>
    rw [List.cons_append, List.append_assoc] at here
    refine (eatPunct_gives here opens).andThen ?_
    rintro _ mid ⟨rfl, here⟩
    refine (eatPunct_absent here (clear_attributes es _ _ _)).andThen ?_
    rintro _ next ⟨rfl, here⟩
    exact attributeTail_gives es here closes []

theorem complete_default :
    Complete (do if ← eatPunct '=' then some <$> literal else pure none)
      (Option.map Literal.unplaced) DefaultOf ['='] := by
  intro docs src s toks rest more given here means clear
  cases means with
  | absent =>
    refine (eatPunct_absent here clear).andThen ?_
    rintro _ post ⟨rfl, here⟩
    exact ⟨rfl, here⟩
  | given gives means =>
    refine (eatPunct_gives here gives).andThen ?_
    rintro _ mid ⟨rfl, here⟩
    refine (complete_literal here means (.none _)).andThen ?_
    rintro hit post ⟨rfl, here⟩
    exact ⟨rfl, here⟩

theorem clear_default (means : DefaultOf toks given) (other : '=' ∉ marks)
    (clear : Clear marks (rest ++ behind)) : Clear marks (toks ++ rest ++ behind) := by
  cases means with
  | absent => exact clear
  | given gives => exact .cons gives other _

theorem clear_attributeList (means : AttributesOf toks attrs) (other : '(' ∉ marks)
    (clear : Clear marks (rest ++ behind)) : Clear marks (toks ++ rest ++ behind) := by
  cases means with
  | absent => exact clear
  | empty opens => exact .cons opens other _
  | listed opens => exact .cons opens other _

/-! ## Members and entries -/

/-- A member succeeds on what derives it, with the documentation that waits and that before it. -/
def CompleteMember {α : Type} (parser : Parser α) (view : α → α) (doc : α → List String)
    (means : List Token → α → Prop) (marks : List Char) : Prop :=
  ∀ {docs : List String} {src s : ParserState} {toks rest : List Token} {used more : List Noted}
    {v : α},
    At docs src [] (used ++ more) s → used.map Prod.snd = toks ++ rest →
      means toks v → Clear marks (rest ++ more.map Prod.snd) →
        Gives (Noted.behind used) src rest more
          (fun hit => view hit = v ∧ doc hit = docs ++ Noted.first used) (parser s)

theorem complete_field :
    CompleteMember field (fun f => f.unplaced.undocumented) Field.doc FieldOf [] := by
  rintro docs src s _ rest used more _ here split ⟨named, dvd, typed, defaulted, attributed, ends⟩ _
  simp only [List.append_assoc, List.cons_append] at split
  rcases here.untold split with ⟨told, here⟩
  refine (expectName_gives _ here named).andThen ?_
  rintro _ one ⟨rfl, here⟩
  refine (expectPunct_gives here dvd).andThen ?_
  rintro _ two ⟨_, here⟩
  refine (complete_typeExpr here typed (clear_default defaulted (by decide)
    (clear_attributeList attributed (by decide) (.cons ends (by decide) _)))).andThen ?_
  rintro ty three ⟨rfl, here⟩
  refine (complete_default here defaulted
    (clear_attributeList attributed (by decide) (.cons ends (by decide) _))).andThen ?_
  rintro given four ⟨rfl, here⟩
  refine (complete_attributeList here attributed (.cons ends (by decide) _)).andThen ?_
  rintro attrs five ⟨rfl, here⟩
  refine (expectPunct_gives here ends).andThen ?_
  rintro _ post ⟨_, here⟩
  exact ⟨⟨rfl, told⟩, here⟩

theorem complete_method :
    CompleteMember method (fun meth => meth.unplaced.undocumented) Method.doc MethodOf [] := by
  rintro docs src s _ rest used more _ here split
    ⟨named, opens, asks, closes, dvd, answers, attributed, ends⟩ _
  simp only [List.append_assoc, List.cons_append] at split
  rcases here.untold split with ⟨told, here⟩
  refine (expectIdent_gives _ here named).andThen ?_
  rintro _ one ⟨rfl, here⟩
  refine (expectPunct_gives here opens).andThen ?_
  rintro _ two ⟨_, here⟩
  refine (complete_dottedName "request type" here ⟨_, asks, rfl⟩
    (.cons closes (by decide) _)).andThen ?_
  rintro ⟨requested, _⟩ three ⟨rfl, here⟩
  refine (expectPunct_gives here closes).andThen ?_
  rintro _ four ⟨_, here⟩
  refine (expectPunct_gives here dvd).andThen ?_
  rintro _ five ⟨_, here⟩
  refine (complete_dottedName "response type" here ⟨_, answers, rfl⟩
    (clear_attributeList attributed (by decide) (.cons ends (by decide) _))).andThen ?_
  rintro ⟨answered, _⟩ six ⟨rfl, here⟩
  refine (complete_attributeList here attributed (.cons ends (by decide) _)).andThen ?_
  rintro attrs seven ⟨rfl, here⟩
  refine (expectPunct_gives here ends).andThen ?_
  rintro _ post ⟨_, here⟩
  exact ⟨⟨rfl, told⟩, here⟩

theorem complete_enumNumber :
    Complete enumNumber Prod.fst (fun toks num => LiteralOf toks (.int num)) [] := by
  intro docs src s toks rest more num here means clear
  refine (complete_literal here means clear).andThen ?_
  rintro ⟨hit, span⟩ post ⟨rfl, here⟩
  exact ⟨rfl, here⟩

theorem complete_enumValue :
    CompleteMember enumValue (fun v => v.unplaced.undocumented) EnumValue.doc EnumValueOf
      ['='] := by
  intro docs src s toks rest used more v here split means clear
  cases means with
  | plain named =>
    rcases here.untold split with ⟨told, here⟩
    refine (expectIdent_gives _ here named).andThen ?_
    rintro _ mid ⟨rfl, here⟩
    refine (eatPunct_absent here clear).andThen ?_
    rintro _ post ⟨rfl, here⟩
    exact ⟨⟨rfl, told⟩, here⟩
  | numbered named gives means =>
    rcases here.untold split with ⟨told, here⟩
    refine (expectIdent_gives _ here named).andThen ?_
    rintro _ mid ⟨rfl, here⟩
    refine (eatPunct_gives here gives).andThen ?_
    rintro _ next ⟨rfl, here⟩
    refine (complete_enumNumber here means (.none _)).andThen ?_
    rintro ⟨hit, span⟩ post ⟨rfl, here⟩
    exact ⟨⟨rfl, told⟩, here⟩

theorem complete_variant :
    CompleteMember variant (fun alt => alt.unplaced.undocumented) Variant.doc VariantOf ['.'] := by
  rintro docs src s toks rest used more _ here split ⟨path⟩ clear
  rcases path_cases path with ⟨name, tail, others, rfl, _, rfl⟩
  rcases here.untold split with ⟨told, here⟩
  refine (complete_dottedName _ here ⟨_, path, rfl⟩ clear).andThen ?_
  rintro ⟨name, span⟩ post ⟨rfl, here⟩
  exact ⟨⟨rfl, told⟩, here⟩

/-- What is named begins with a name. -/
def Named {α : Type} (means : List Token → α → Prop) : Prop :=
  ∀ {toks : List Token} {v : α},
    means toks v → ∃ name tail, toks = name :: tail ∧ MayName name

theorem named_field : Named FieldOf := by
  rintro _ _ ⟨named, _, _, _, _, _⟩
  exact ⟨_, _, rfl, named⟩

theorem named_method : Named MethodOf := by
  rintro _ _ ⟨named, _, _, _, _, _, _, _⟩
  exact ⟨_, _, rfl, .inl named⟩

theorem named_enumValue : Named EnumValueOf := by
  rintro _ _ (named | ⟨named, _, _⟩)
  · exact ⟨_, _, rfl, .inl named⟩
  · exact ⟨_, _, rfl, .inl named⟩

theorem named_variant : Named VariantOf := by
  rintro _ _ ⟨path⟩
  grind [path_cases, MayName]

end Parser

end FlatSchema
