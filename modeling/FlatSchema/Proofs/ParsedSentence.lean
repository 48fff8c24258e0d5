import FlatSchema.Proofs.Outlines
import FlatSchema.Proofs.Parsing

/-!
# What is parsed is grammatical

Each construct that the parser reads derives from the tokens that it took.
Where the parser recovers inside braces it drops tokens, and the others still
derive what it kept; without a report it drops none.
-/

namespace FlatSchema

variable {kw : Keyword}

open Grammar

/-! ## Single tokens -/

theorem Token.inside_of_isPunct {tok : Token} (hit : tok.isPunct mark) : tok.kind ≠ .eof := by
  grind [isPunct]

section

open Parser

variable {src s : ParserState} {kept : List Token}

variable (here : Retains src kept s)
include here

theorem Retains.stepPunct (hit : (head (Parser.settle s)).isPunct mark) :
    Retains src (kept ++ [head (Parser.settle s)]) (Parser.step s) :=
  here.step (Token.inside_of_isPunct hit)

theorem Retains.expectPunct (mark : Char) :
    Ends src (fun tok post => tok.isPunct mark ∧ Retains src (kept ++ [tok]) post)
      (expectPunct mark s) := by
  rw [expectPunct_run]
  split
  · next hit => exact ⟨hit, here.stepPunct hit⟩
  · exact .fail here.settle _

theorem Retains.eatPunct (mark : Char) :
    Ends src
      (fun eaten post =>
        eaten = true ∧ (∃ tok : Token, tok.isPunct mark ∧ Retains src (kept ++ [tok]) post) ∨
          eaten = false ∧ Retains src kept post) (eatPunct mark s) := by
  rw [eatPunct_run]
  split
  · next hit => exact .inl ⟨rfl, _, hit, here.stepPunct hit⟩
  · exact .inr ⟨rfl, here.settle⟩

theorem Retains.expectIdent (what : String) :
    Ends src
      (fun name post =>
        ∃ tok : Token,
          tok.kind = .ident ∧ name = (tok.text, tok.span) ∧ Retains src (kept ++ [tok]) post)
      (expectIdent what s) := by
  rw [expectIdent_run]
  split
  · next hit => exact ⟨_, hit, rfl, here.step (by rw [hit]; exact TokenClass.noConfusion)⟩
  · exact .fail here.settle _

theorem Retains.expectName (what : String) :
    Ends src
      (fun name post =>
        ∃ tok : Token, MayName tok ∧ name = (tok.text, tok.span) ∧ Retains src (kept ++ [tok]) post)
      (expectName what s) := by
  rw [expectName_run]
  split
  · next hit =>
      refine ⟨_, isName_iff.mp hit, rfl, here.step ?_⟩
      grind [isName]
  · exact .fail here.settle _

theorem Retains.expectString (what : String) :
    Ends src (fun v post => ∃ tok : Token, tok.kind = .string v ∧ Retains src (kept ++ [tok]) post)
      (expectString what s) := by
  rw [expectString_run]
  split
  · next v hit =>
      exact ⟨_, hit, here.step (by rw [hit]; exact TokenClass.noConfusion)⟩
  · exact .fail here.settle _

theorem Retains.takeDoc :
    Ends src (fun doc post => doc ⊆ src.lines ∧ Retains src kept post) (takeDoc s) :=
  ⟨fun _ mem => here.settle.passes.lines (List.mem_append_left _ mem), here.settle.dropDocs⟩

end

namespace Parser

/-! ## Constructs without recovery -/

/-- What a construct keeps is grammatical and covers its outlines, and its documentation was
waiting or to come. -/
def Sound {α : Type} (src : ParserState) (parser : Parser α) (means : List Token → α → Prop)
    (doc : α → List String) (outlines : α → List Outline) : Prop :=
  ∀ ⦃kept : List Token⦄ ⦃s : ParserState⦄,
    Retains src kept s →
      Ends src
        (fun v post =>
          ∃ used,
            Retains src (kept ++ used) post ∧ means used v ∧ doc v ⊆ src.lines ∧
              Covers used (outlines v))
        (parser s)

/-- A construct that takes no documentation. -/
def SoundBare {α : Type} (src : ParserState) (parser : Parser α) (means : List Token → α → Prop)
    (outlines : α → List Outline) : Prop :=
  ∀ ⦃kept : List Token⦄ ⦃s : ParserState⦄,
    Retains src kept s →
      Ends src
        (fun v post =>
          ∃ used, Retains src (kept ++ used) post ∧ means used v ∧ Covers used (outlines v))
        (parser s)

/-- What holds of a construct from where it begins. -/
def SoundAt {α : Type} (s : ParserState) (parser : Parser α) (means : List Token → α → Prop)
    (doc : α → List String) : Prop :=
  Ends s
    (fun v post =>
      ∃ used, Retains s used post ∧ means used v ∧ doc v ⊆ s.lines)
    (parser s)

section

variable {α : Type} {src s : ParserState} {parser : Parser α}
  {means : List Token → α → Prop} {doc : α → List String}

theorem SoundAt.within (sound : SoundAt s parser means doc) (here : Retains src kept s) :
    Ends src
      (fun v post => ∃ used, Retains src (kept ++ used) post ∧ means used v ∧ doc v ⊆ src.lines)
      (parser s) := by
  unfold SoundAt at sound
  cases ended : parser s with
  | done v post =>
    rw [ended] at sound
    rcases sound with ⟨used, keeps, denoted, documented⟩
    exact ⟨used, here.trans keeps, denoted, List.Subset.trans documented here.passes.lines⟩
  | failed post =>
    rw [ended] at sound
    exact here.passes.faults sound

theorem Sound.of_at (sound : ∀ {s : ParserState}, s.last.kind = .eof →
    SoundAt s parser means doc) : Sound src parser means doc fun _ => [] := by
  refine fun _ _ here => ((sound here.eof).within here).imp ?_
  grind [Covers.skip]

theorem SoundBare.of_at (sound : ∀ {s : ParserState}, s.last.kind = .eof →
    SoundAt s parser means fun _ => []) : SoundBare src parser means fun _ => [] := by
  refine fun _ _ here => ((sound here.eof).within here).imp ?_
  grind [Covers.skip]

end

section

variable {src : ParserState}

theorem sound_nameTail (parts : List String) (span : Span) :
    SoundBare src (nameTail parts span) (fun used res =>
      ∃ more,
        res.1 = parts ++ more ∧
          (∀ name : Token, name.kind = .ident → Path (name :: used) (name.text :: more)) ∧
            ∀ name : Token, name.span = span →
              ∃ last, (name :: used).getLast? = some last ∧ res.2 = last.span) fun _ => [] := by
  refine .of_at fun {s} eof => ?_
  induction len : s.rest.length using Nat.strongRecOn generalizing s parts span with
  | ind bound ih =>
  have here := Retains.refl eof
  unfold SoundAt
  rw [nameTail_run]
  split
  · next hit =>
      refine ((here.stepPunct hit).expectIdent _).andThen ?_
      rintro _ next ⟨tok, ident, rfl, here⟩
      have fewer := here.length_lt (List.cons_ne_nil _ _)
      rw [if_pos fewer]
      refine ((ih _ (by rw [← len]; exact fewer) _ _ here.eof rfl).within here).imp ?_
      rintro res post ⟨used, here, ⟨more, result_eq, path, ends⟩, _⟩
      refine ⟨_, here, ⟨tok.text :: more, ?_, ?_, ?_⟩, List.nil_subset _⟩
      · rw [result_eq, List.append_assoc, List.singleton_append]
      · intro name isIdent
        exact .cons isIdent hit (path tok ident)
      grind
  · refine ⟨[], here.settle, ⟨[], (List.append_nil parts).symm, ?_, ?_⟩, List.nil_subset _⟩
    · intro name ident
      exact .last ident
    grind

theorem sound_dottedParts (what : String) :
    SoundBare src (dottedParts what) (fun used res => Path used res.1)
      fun res => [.node res.2 []] := by
  intro kept s here
  refine (here.expectIdent what).andThen ?_
  rintro _ mid ⟨tok, ident, rfl, here⟩
  refine (sound_nameTail [tok.text] tok.span here).andThen ?_
  rintro ⟨parts, _⟩ post ⟨used, here, ⟨more, rfl, path, ends⟩, _⟩
  rcases ends tok rfl with ⟨last, isLast, rfl⟩
  exact ⟨tok :: used, by simpa using here, path tok ident, .join rfl isLast⟩

theorem sound_dottedName (what : String) :
    SoundBare src (dottedName what) (fun used res =>
      ∃ parts, Path used parts ∧ res.1 = ".".intercalate parts) fun res => [.node res.2 []] := by
  intro kept s here
  refine (sound_dottedParts what here).andThen ?_
  rintro ⟨parts, span⟩ post ⟨used, here, path, covers⟩
  exact ⟨used, here, ⟨parts, path, rfl⟩, covers⟩

theorem sound_typeName :
    SoundBare src typeName (fun used ty => TypeOf used ty.unplaced) fun ty => [ty.outline] := by
  intro kept s here
  rw [typeName, bind_run]
  simp only [current, Reply.andThen]
  split
  · refine (sound_dottedName "type" here.settle).andThen ?_
    rintro ⟨name, span⟩ post ⟨used, here, ⟨parts, path, rfl⟩, covers⟩
    refine ⟨used, here, ?_⟩
    rw [unplaced_namedType, outline_namedType]
    exact ⟨.named path, covers⟩
  · exact .fail here.settle _

theorem sound_typeExpr :
    SoundBare src typeExpr (fun used ty => TypeOf used ty.unplaced) fun ty => [ty.outline] := by
  intro kept s here
  induction len : s.rest.length using Nat.strongRecOn generalizing kept s with
  | ind bound ih =>
  rw [typeExpr]
  split
  · exact sound_typeName here.settle
  · next opening rest hit =>
      split
      · next opens =>
          have shorter := length_settle_le s
          rw [hit, len] at shorter
          refine (ih _ shorter (here.next hit) rfl).andThen ?_
          rintro elem mid ⟨used, here, typed, covers⟩
          refine (here.expectPunct ']').andThen ?_
          rintro closing post ⟨closes, here⟩
          exact ⟨_, by simpa using here, .vector opens typed closes,
            (covers.append (.token closing)).closed rfl opening⟩
      · exact sound_typeName here.settle

/-! ## Literals -/

theorem signedLiteral?_eof (eof : tok.kind = .eof) : signedLiteral? negative tok = none := by
  simp [signedLiteral?, eof]

/-- No literal begins with the end of the file. -/
theorem plainLiteral?_eof (eof : tok.kind = .eof) : plainLiteral? tok = none := by
  simp [plainLiteral?, signedLiteral?, eof]

theorem sound_literal :
    SoundBare src literal (fun used res => LiteralOf used res.value) fun res => [res.outline] := by
  intro kept s here
  rw [literal, bind_run]
  simp only [current, Reply.andThen]
  cases signed : signOf (head (settle s)) with
  | some negative =>
    have sign := signOf_eq_some_iff.mp signed
    have passed := here.stepPunct sign
    simp only [bind_run, advance_run, step_settle, Reply.andThen, current]
    cases hit : signedLiteral? negative (head (settle (step s))) with
    | some v =>
      have fits : (head (settle (step s))).kind ≠ .eof := by
        grind [signedLiteral?_eof]
      have derived : LiteralOf [head (settle s), head (settle (step s))] v := by
        rcases signedLiteral?_eq_some_iff.mp hit with ⟨num, means, rfl⟩
        cases negative with
        | true => exact .minus sign means
        | false => exact .plus sign means
      simp only [bind_run, advance_run, step_settle, Reply.andThen, pure_run]
      exact ⟨_, by simpa using passed.step fits, derived, .join rfl rfl⟩
    | none => exact .fail passed.settle _
  | none =>
    cases hit : plainLiteral? (head (settle s)) with
    | some v =>
      have fits : (head (settle s)).kind ≠ .eof := by
        grind [plainLiteral?_eof]
      simp only [bind_run, advance_run, step_settle, Reply.andThen, pure_run]
      exact ⟨_, here.step fits, plainLiteral?_eq_some_iff.mp hit, .token _⟩
    | none => exact .fail here.settle _

/-! ## Attributes -/

theorem sound_attributeEntry :
    SoundBare src attributeEntry (fun used e => AttributeOf used e.unplaced)
      fun e => [e.outline] := by
  intro kept s here
  refine (here.expectName "attribute name").andThen ?_
  rintro _ named ⟨name, isNamed, rfl, here⟩
  refine (here.eatPunct ':').andThen ?_
  rintro eaten divided (⟨rfl, colon, dvd, here⟩ | ⟨rfl, here⟩)
  · refine (sound_literal here).andThen ?_
    rintro v post ⟨used, here, means, covers⟩
    exact ⟨_, by simpa using here, .valued isNamed dvd means,
      ((covers.behind colon).led name).node rfl rfl (List.sublist_cons_self _ _)⟩
  · exact ⟨_, here, .plain isNamed, .token name⟩

theorem sound_attributeTail (attrs : List Attribute) :
    SoundBare src (attributeTail attrs) (fun used res =>
      ∃ front closing more,
        used = front ++ [closing] ∧ closing.isPunct ')' ∧ res = attrs ++ more ∧
          Separated AttributeOf front (more.map Attribute.unplaced) ∧
            Covers front (more.map Attribute.outline)) fun _ => [] := by
  refine .of_at fun {s} eof => ?_
  induction len : s.rest.length using Nat.strongRecOn generalizing s attrs with
  | ind bound ih =>
  unfold SoundAt
  rw [attributeTail]
  refine (sound_attributeEntry (.refl eof)).andThen ?_
  rintro e afterEntry ⟨used, here, means, covers⟩
  refine (here.eatPunct ',').andThen ?_
  rintro eaten next (⟨rfl, comma, dvd, here⟩ | ⟨rfl, here⟩)
  · have fewer : next.rest.length < s.rest.length := here.length_lt (by simp)
    rw [if_pos fewer]
    refine ((ih _ (by rw [← len]; exact fewer) _ here.eof rfl).within here).imp ?_
    rintro res post ⟨_, here, ⟨front, closing, more, rfl, closes, rfl, separated, others⟩, _⟩
    refine ⟨_, here, ⟨used ++ comma :: front, closing, e :: more, by simp, closes, by simp,
      .cons means dvd separated, covers.append (others.behind comma)⟩, List.nil_subset _⟩
  · refine (here.expectPunct ')').andThen ?_
    rintro closing post ⟨closes, here⟩
    exact ⟨_, here, ⟨used, closing, [e], rfl, closes, rfl, .last means, covers⟩, List.nil_subset _⟩

theorem sound_attributeList :
    SoundBare src attributeList (fun used attrs => AttributesOf used (attrs.map Attribute.unplaced))
      fun attrs => attrs.map Attribute.outline := by
  intro kept s here
  refine (here.eatPunct '(').andThen ?_
  rintro eaten opened (⟨rfl, opening, opens, here⟩ | ⟨rfl, here⟩)
  · refine (here.eatPunct ')').andThen ?_
    rintro eaten closed (⟨rfl, closing, closes, here⟩ | ⟨rfl, here⟩)
    · exact ⟨_, by simpa using here, .empty opens closes, .skip _⟩
    · refine (sound_attributeTail [] here).imp ?_
      rintro res post ⟨_, here, ⟨used, closing, more, rfl, closes, rfl, separated, covers⟩, _⟩
      have covers := covers.append (.skip [closing])
      exact ⟨_, by simpa using here, .listed opens separated closes,
        by simpa using covers.behind opening⟩
  · exact ⟨[], by simpa using here, .absent, .skip _⟩

/-! ## Members and entries -/

theorem sound_default :
    SoundBare src (do if ← eatPunct '=' then some <$> literal else pure none)
      (fun used given => DefaultOf used (given.map Literal.unplaced))
      fun given => given.toList.map Literal.outline := by
  intro kept s here
  refine (here.eatPunct '=').andThen ?_
  rintro eaten next (⟨rfl, equals, gives, here⟩ | ⟨rfl, here⟩)
  · refine (sound_literal here).andThen ?_
    rintro v post ⟨used, here, means, covers⟩
    exact ⟨_, by simpa using here, .given gives means, covers.behind equals⟩
  · exact ⟨[], by simpa using here, .absent, .skip _⟩

theorem sound_field :
    Sound src field (fun used f => FieldOf used f.unplaced.undocumented) Field.doc
      fun f => [f.outline] := by
  intro kept s here
  rw [field]
  refine here.takeDoc.andThen ?_
  rintro doc afterDoc ⟨lines, here⟩
  refine (here.expectName "field name").andThen ?_
  rintro _ afterName ⟨name, isNamed, rfl, here⟩
  refine (here.expectPunct ':').andThen ?_
  rintro colon afterColon ⟨dvd, here⟩
  refine (sound_typeExpr here).andThen ?_
  rintro ty afterType ⟨typeToks, here, typed, coversType⟩
  refine (sound_default here).andThen ?_
  rintro given afterDefault ⟨defaultTokens, here, defaulted, coversDefault⟩
  refine (sound_attributeList here).andThen ?_
  rintro attrs afterAttributes ⟨attrToks, here, attributed, coversAttrs⟩
  refine (here.expectPunct ';').andThen ?_
  rintro semi post ⟨ends, here⟩
  have covers := coversType.append (coversDefault.append (coversAttrs.append (.token semi)))
  exact ⟨_, by simpa using here, .member isNamed dvd typed defaulted attributed ends, lines,
    (covers.behind colon).closed (by simp [Token.outline]) name⟩

theorem sound_method :
    Sound src method (fun used meth => MethodOf used meth.unplaced.undocumented) Method.doc
      fun meth => [meth.outline] := by
  intro kept s here
  rw [method]
  refine here.takeDoc.andThen ?_
  rintro doc afterDoc ⟨lines, here⟩
  refine (here.expectIdent "method name").andThen ?_
  rintro _ afterName ⟨name, isNamed, rfl, here⟩
  refine (here.expectPunct '(').andThen ?_
  rintro opening afterOpening ⟨opens, here⟩
  refine (sound_dottedName "request type" here).andThen ?_
  rintro ⟨request, _⟩ afterRequest ⟨requestTokens, here, ⟨requestParts, asks, rfl⟩, _⟩
  refine (here.expectPunct ')').andThen ?_
  rintro closing afterClosing ⟨closes, here⟩
  refine (here.expectPunct ':').andThen ?_
  rintro colon afterColon ⟨dvd, here⟩
  refine (sound_dottedName "response type" here).andThen ?_
  rintro ⟨response, _⟩ afterResponse ⟨responseTokens, here, ⟨responseParts, answers, rfl⟩, _⟩
  refine (sound_attributeList here).andThen ?_
  rintro attrs afterAttributes ⟨attrToks, here, attributed, covers⟩
  refine (here.expectPunct ';').andThen ?_
  rintro semi post ⟨ends, here⟩
  have covers := (Covers.skip responseTokens).append (covers.append (.token semi))
  have covers := (Covers.skip requestTokens).append ((covers.behind colon).behind closing)
  exact ⟨_, by simpa using here,
    .member isNamed opens asks closes dvd answers attributed ends, lines,
    (covers.behind opening).closed rfl name⟩

theorem sound_enumNumber :
    SoundBare src enumNumber (fun used res => LiteralOf used (.int res.1))
      fun res => [.node res.2 []] := by
  intro kept s here
  refine (sound_literal here).andThen ?_
  rintro ⟨v, span⟩ post ⟨used, here, means, covers⟩
  cases v with
  | int num => exact ⟨used, here, means, covers⟩
  | name name => exact .failAt here ..
  | float _ | bool _ | string _ => exact .failAt here ..

theorem sound_enumValue :
    Sound src enumValue (fun used v => EnumValueOf used v.unplaced.undocumented) EnumValue.doc
      fun v => [v.outline] := by
  intro kept s here
  rw [enumValue]
  refine here.takeDoc.andThen ?_
  rintro doc afterDoc ⟨lines, here⟩
  refine (here.expectIdent "enum value name").andThen ?_
  rintro _ afterName ⟨name, isNamed, rfl, here⟩
  refine (here.eatPunct '=').andThen ?_
  rintro eaten next (⟨rfl, equals, gives, here⟩ | ⟨rfl, here⟩)
  · refine (sound_enumNumber here).andThen ?_
    rintro ⟨num, _⟩ post ⟨used, here, means, covers⟩
    exact ⟨_, by simpa using here, .numbered isNamed gives means, lines,
      ((covers.behind equals).led name).node rfl rfl (List.nil_sublist _)⟩
  · exact ⟨_, here, .plain isNamed, lines, .join rfl rfl⟩

theorem sound_variant :
    Sound src variant (fun used alt => VariantOf used alt.unplaced.undocumented) Variant.doc
      fun alt => [alt.outline] := by
  intro kept s here
  rw [variant]
  refine here.takeDoc.andThen ?_
  rintro doc afterDoc ⟨lines, here⟩
  refine (sound_dottedName "union variant type" here).andThen ?_
  rintro ⟨name, _⟩ post ⟨used, here, ⟨parts, path, rfl⟩, covers⟩
  exact ⟨_, here, .named path, lines, covers⟩

end

/-! ## Bodies -/

theorem recoverMember_passes (s : ParserState) : Passes s (recoverMember s) := by
  induction len : s.rest.length using Nat.strongRecOn generalizing s with
  | ind bound ih =>
  rw [recoverMember]
  split
  · exact .settle s
  · next tok post opened =>
      have shorter := length_settle_le s
      split
      · exact .settle s
      · grind [Passes.trans, Passes.skip]

section

variable {α : Type} {parser : Parser α} {means : List Token → α → Prop} {doc : α → List String}
  {outline : α → Outline} {src : ParserState}

variable (sound : ∀ src, Sound src parser means doc fun v => [outline v])
include sound

theorem sound_members (nonempty : ∀ {used v}, means used v → used ≠ []) (read : List α) :
    Sound src (members parser read)
      (fun used res =>
        ∃ front closing more,
          used = front ++ [closing] ∧ closing.isPunct '}' ∧ res.1 = read ++ more ∧
            Repeated means front more ∧ res.2 = closing.span ∧ Covers front (more.map outline))
      (fun res => (res.1.drop read.length).flatMap doc) fun _ => [] := by
  refine .of_at fun {s} eof => ?_
  induction len : s.rest.length using Nat.strongRecOn generalizing s read with
  | ind bound ih =>
  have here := Retains.refl eof
  unfold SoundAt
  rw [members]
  split
  · next closes =>
      exact ⟨_, (here.stepPunct closes).dropDocs,
        ⟨[], _, [], rfl, closes, by simp, .nil, rfl, .skip _⟩, by simp⟩
  · split
    · exact .fail here.settle _
    · have one := sound (settle s) (.refl here.settle.eof)
      cases ended : parser (settle s) with
      | done v next =>
        rw [ended] at one
        rcases one with ⟨used, reads, denoted, documented, covers⟩
        have here := here.settle.trans reads
        have fewer := here.length_lt (nonempty denoted)
        rw [if_pos fewer]
        refine ((ih _ (by rw [← len]; exact fewer) _ here.eof rfl).within here).imp ?_
        rintro ⟨_, close⟩ post
          ⟨_, here, ⟨front, closing, more, rfl, closes, rfl, repeated, close_eq, coversRest⟩,
            others⟩
        refine ⟨_, here, ⟨used ++ front, closing, v :: more, by simp, closes, by simp,
          .cons denoted repeated, close_eq, covers.append coversRest⟩, ?_⟩
        simp only [List.drop_left] at others
        simp only [List.append_assoc, List.singleton_append, List.drop_left, List.flatMap_cons]
        exact List.append_subset.mpr ⟨List.Subset.trans documented (Passes.settle s).lines, others⟩
      | failed next =>
        rw [ended] at one
        have faults : Faults s (recoverMember { next with docs := [] }) := by
          have recovers := (Passes.dropDocs next).trans (recoverMember_passes _)
          refine (Passes.settle s).faults ⟨one.passes.trans recovers, ?_⟩
          exact Nat.lt_of_lt_of_le one.reports_lt recovers.reports_le
        simp only
        split
        · next fewer =>
            have here := here.faults faults
            exact (ih _ (by rw [← len]; exact fewer) _ here.eof rfl).within here
        · exact faults

theorem sound_body (nonempty : ∀ {used v}, means used v → used ≠ []) :
    Sound src (body parser) (fun used res => Members means used res.1)
      (fun res => res.1.flatMap doc) fun res => res.1.map outline ++ [.node res.2 []] := by
  intro kept s here
  refine (here.expectPunct '{').andThen ?_
  rintro opening next ⟨opens, here⟩
  refine (sound_members sound nonempty [] here).imp ?_
  rintro ⟨vs, _⟩ post
    ⟨_, here, ⟨front, closing, more, rfl, closes, rfl, repeated, rfl, covers⟩, documented, _⟩
  exact ⟨_, by simpa using here, .braced opens repeated closes, documented,
    (covers.append (.token closing)).behind opening⟩

theorem sound_entries (read : List α) :
    Sound src (entries parser read)
      (fun used res =>
        ∃ more,
          res.1 = read ++ more ∧
            (∀ opening : Token, opening.isPunct '{' → Entries means (opening :: used) more) ∧
              Covers used (more.map outline ++ [.node res.2 []]))
      (fun res => (res.1.drop read.length).flatMap doc) fun _ => [] := by
  refine .of_at fun {s} eof => ?_
  induction len : s.rest.length using Nat.strongRecOn generalizing s read with
  | ind bound ih =>
  have here := Retains.refl eof
  unfold SoundAt
  rw [entries]
  split
  · next closes =>
      exact ⟨_, (here.stepPunct closes).dropDocs,
        ⟨[], (List.append_nil read).symm, fun _ opens => .empty opens closes, .token _⟩, by simp⟩
  · refine (sound s here.settle).andThen ?_
    rintro v afterEntry ⟨used, here, denoted, documented, covers⟩
    refine (here.eatPunct ',').andThen ?_
    rintro eaten next (⟨rfl, comma, dvd, here⟩ | ⟨rfl, here⟩)
    · have fewer := here.length_lt (by simp)
      rw [if_pos fewer]
      refine ((ih _ (by rw [← len]; exact fewer) _ here.eof rfl).within here).imp ?_
      rintro ⟨_, close⟩ post ⟨used, here, ⟨more, rfl, listed, coversRest⟩, others⟩
      refine ⟨_, here, ⟨v :: more, by simp, ?_, ?_⟩, ?_⟩
      · grind [Entries.cons]
      · simpa using covers.append (coversRest.behind comma)
      · grind
    · refine (here.expectPunct '}').andThen ?_
      rintro closing post ⟨closes, here⟩
      refine ⟨_, here, ⟨[v], rfl, ?_, covers.append (.token closing)⟩, ?_⟩
      · intro opening opens
        exact .listed opens (.last denoted) closes
      · simpa using documented

theorem sound_commaList :
    Sound src (commaList parser) (fun used res => Entries means used res.1)
      (fun res => res.1.flatMap doc) fun res => res.1.map outline ++ [.node res.2 []] := by
  intro kept s here
  refine (here.expectPunct '{').andThen ?_
  rintro opening next ⟨opens, here⟩
  refine (sound_entries sound [] here).imp ?_
  grind [Covers.behind]

end

/-! ## Items -/

/-- What was kept makes a tree behind a word, from its place on. -/
def BehindWord {α : Type} (kw : Keyword) (start : Span) (means : List Token → α → Prop)
    (outline : α → Outline) (kept : List Token) (v : α) : Prop :=
  ∀ word : Token, word.kind = .keyword kw → word.span = start →
    means (word :: kept) v ∧ Covers (word :: kept) [outline v]

/-- What is read behind the word of a declaration makes the declaration. -/
abbrev SoundDecl (src : ParserState) (kw : Keyword) (start : Span) (ns : List String)
    (parser : Parser Decl) : Prop :=
  Sound src parser
    (BehindWord kw start (fun used decl => DeclOf ns used decl.unplaced.undocumented) Decl.outline)
    Decl.docLines fun _ => []

/-- What is read behind the word of an item makes the item. -/
abbrev SoundItem (src : ParserState) (kw : Keyword) (start : Span) (ns : List String)
    (parser : Parser Item) : Prop :=
  Sound src parser
    (BehindWord kw start (fun used item => ItemOf ns used item.plain) Item.outline)
    Item.docLines fun _ => []

section

variable {src : ParserState} {start : Span} {doc ns : List String}

theorem SoundDecl.item (sound : SoundDecl src kw start ns parser) :
    SoundItem src kw start ns (.declaration <$> parser) := by
  intro kept s here
  refine Ends.andThen (sound here) ?_
  rintro decl post ⟨used, here, means, rest⟩
  exact ⟨used, here, fun word begins place => (means word begins place).imp_left .declaration, rest⟩

theorem sound_declaration {means : List Token → List α → Prop} {make : List α → DeclBody}
    {outline : α → Outline} (lines : doc ⊆ src.lines)
    (sound : Sound src parser (fun used res => means used res.1) (fun res => res.1.flatMap docOf)
      fun res => res.1.map outline ++ [.node res.2 []])
    (bodied : ∀ toks vs, means toks vs → BodyOf kw toks (make vs).unplaced.undocumented)
    (documents : ∀ vs, (make vs).docLines = vs.flatMap docOf)
    (outlines : ∀ vs, (make vs).outlines = ([], vs.map outline)) (what : String) :
    SoundDecl src kw start ns (do
      let (name, _) ← expectIdent what
      let attrs ← attributeList
      let (vs, close) ← parser
      return ⟨name, ns, doc, attrs, make vs, Span.join start close⟩) := by
  intro kept s here
  refine (here.expectIdent what).andThen ?_
  rintro _ afterName ⟨name, isNamed, rfl, here⟩
  refine (sound_attributeList here).andThen ?_
  rintro attrs afterAttributes ⟨attrToks, here, attributed, coversAttrs⟩
  refine (sound here).andThen ?_
  rintro ⟨vs, close⟩ post ⟨used, here, denoted, documented, covers⟩
  refine ⟨name :: (attrToks ++ used), by simpa using here, ?_, ?_, .skip _⟩
  · rintro word begins rfl
    refine ⟨.other begins isNamed attributed (bodied used vs denoted), ?_⟩
    exact ((coversAttrs.append covers).behind name).closed (by simp [outlines]) word
  grind [Decl.docLines]

theorem sound_enumDecl (lines : doc ⊆ src.lines) :
    SoundDecl src .enumWord start ns (enumDecl start doc ns) := by
  intro kept s here
  refine (here.expectIdent "enum name").andThen ?_
  rintro _ afterName ⟨name, isNamed, rfl, here⟩
  refine (here.expectPunct ':').andThen ?_
  rintro colon afterColon ⟨dvd, here⟩
  refine (sound_typeExpr here).andThen ?_
  rintro base afterType ⟨typeToks, here, typed, coversType⟩
  refine (sound_attributeList here).andThen ?_
  rintro attrs afterAttributes ⟨attrToks, here, attributed, coversAttrs⟩
  refine (sound_commaList (fun _ => sound_enumValue) here).andThen ?_
  rintro ⟨vs, close⟩ post ⟨used, here, es, documented, covers⟩
  refine ⟨name :: colon :: (typeToks ++ (attrToks ++ used)), by simpa using here, ?_,
    List.append_subset.mpr ⟨lines, documented⟩, .skip _⟩
  rintro word begins rfl
  have listed : Entries EnumValueOf used
      ((vs.map EnumValue.unplaced).map EnumValue.undocumented) := by
    rw [List.map_map]
    exact es.map
  have covers := coversType.append (coversAttrs.append covers)
  exact ⟨.enum begins isNamed dvd typed attributed listed,
    ((covers.behind colon).behind name).closed (by simp [DeclBody.outlines]) word⟩

theorem sound_unionDecl (lines : doc ⊆ src.lines) :
    SoundDecl src .unionWord start ns (unionDecl start doc ns) := by
  refine sound_declaration lines (sound_commaList fun _ => sound_variant) ?_ (fun _ => rfl)
    (fun _ => rfl) "union name"
  intro toks alts es
  apply BodyOf.union
  rw [List.map_map]
  exact es.map

/-- A field takes tokens. -/
theorem fieldOf_ne_nil (means : FieldOf used given) : used ≠ [] := by
  cases means
  exact List.cons_ne_nil _ _

theorem sound_structDecl (lines : doc ⊆ src.lines) :
    SoundDecl src .structWord start ns (structDecl start doc ns) := by
  refine sound_declaration lines (sound_body (fun _ => sound_field) fieldOf_ne_nil) ?_
    (fun _ => rfl) (fun _ => rfl) "struct name"
  intro toks fs members
  apply BodyOf.struct
  rw [List.map_map]
  exact members.map

theorem sound_tableDecl (lines : doc ⊆ src.lines) :
    SoundDecl src .tableWord start ns (tableDecl start doc ns) := by
  refine sound_declaration lines (sound_body (fun _ => sound_field) fieldOf_ne_nil) ?_
    (fun _ => rfl) (fun _ => rfl) "table name"
  intro toks fs members
  apply BodyOf.table
  rw [List.map_map]
  exact members.map

theorem sound_serviceDecl (lines : doc ⊆ src.lines) :
    SoundDecl src .serviceWord start ns (serviceDecl start doc ns) := by
  have nonempty : ∀ {used method}, MethodOf used method → used ≠ [] := by
    intro used method means
    cases means
    exact List.cons_ne_nil _ _
  refine sound_declaration lines (sound_body (fun _ => sound_method) nonempty) ?_ (fun _ => rfl)
    (fun _ => rfl) "service name"
  intro toks methods members
  apply BodyOf.service
  rw [List.map_map]
  exact members.map

/-- A directive that holds a string and nothing else. -/
theorem sound_quoted {make : Text → Span → Item} (directs : stringDirective? kw = some plain)
    (unplaced : ∀ v span, (make v span).plain = plain v)
    (undocumented : ∀ v span, (make v span).docLines = [])
    (outlines : ∀ v span, (make v span).outline = .node span []) :
    SoundItem src kw start ns (do
      let (v, span) ← stringDirective start
      return make v span) := by
  intro kept s here
  have dir : Ends src
      (fun res post =>
        ∃ v semi : Token,
          v.kind = .string res.1 ∧ semi.isPunct ';' ∧ res.2 = Span.join start semi.span ∧
            Retains src (kept ++ [v, semi]) post)
      (stringDirective start s) := by
    refine (here.expectString "string literal").andThen ?_
    rintro text afterValue ⟨v, quoted, here⟩
    refine (here.expectPunct ';').andThen ?_
    rintro semi post ⟨ends, here⟩
    exact ⟨v, semi, quoted, ends, rfl, by simpa using here⟩
  refine dir.andThen ?_
  rintro ⟨text, _⟩ post ⟨v, semi, quoted, ends, rfl, here⟩
  refine ⟨_, here, ?_, by simp [undocumented], .skip _⟩
  rintro word begins rfl
  simp only [unplaced, outlines]
  exact ⟨.directive (.quoted begins directs quoted ends), .join rfl rfl⟩

theorem sound_scopeDirective : SoundItem src .namespaceWord start ns (scopeDirective start) := by
  intro kept s here
  have named : Ends src
      (fun parts post =>
        ∃ used, Retains src (kept ++ used) post ∧ (used = [] ∧ parts = [] ∨ Path used parts))
      ((do if ← isPunct ';' then pure [] else Prod.fst <$> dottedParts "namespace name" :
        Parser (List String)) s) := by
    rw [bind_run, isPunct_run]
    simp only [Reply.andThen]
    split
    · exact ⟨[], by simpa using here.settle, .inl ⟨rfl, rfl⟩⟩
    · refine (sound_dottedParts "namespace name" here.settle).andThen ?_
      rintro ⟨parts, span⟩ post ⟨used, here, path, _⟩
      exact ⟨used, here, .inr path⟩
  refine named.andThen ?_
  rintro parts afterName ⟨used, here, leaves⟩
  refine (here.expectPunct ';').andThen ?_
  rintro semi post ⟨ends, here⟩
  refine ⟨used ++ [semi], by simpa using here, ?_, List.nil_subset _, .skip _⟩
  rintro word begins rfl
  refine ⟨?_, ((Covers.skip used).append (.token semi)).closed rfl word⟩
  rcases leaves with ⟨rfl, rfl⟩ | path
  · exact .directive (.leaveScope begins ends)
  · exact .directive (.enterScope begins path ends)

theorem sound_rootDirective : SoundItem src .rootTypeWord start ns (rootDirective start ns) := by
  intro kept s here
  refine (sound_dottedName "root type name" here).andThen ?_
  rintro ⟨name, _⟩ afterName ⟨used, here, ⟨parts, path, rfl⟩, _⟩
  refine (here.expectPunct ';').andThen ?_
  rintro semi post ⟨ends, here⟩
  refine ⟨used ++ [semi], by simpa using here, ?_, List.nil_subset _, .skip _⟩
  rintro word begins rfl
  exact ⟨.directive (.rootType begins path ends),
    ((Covers.skip used).append (.token semi)).closed rfl word⟩

theorem sound_attributeDirective :
    SoundItem src .attributeWord start ns (attributeDirective start) := by
  intro kept s here
  have goesOn : ∀ (name : Text) (next : ParserState),
      (∃ tok : Token, Retains src (kept ++ [tok]) next ∧
        (tok.kind = .string name ∨ tok.kind = .ident ∧ name = Text.ofString tok.text)) →
      Ends src
        (fun item post =>
          ∃ used, Retains src (kept ++ used) post ∧
            BehindWord .attributeWord start (fun used item => ItemOf ns used item.plain)
              Item.outline used item ∧ item.docLines ⊆ src.lines ∧ Covers used [])
        ((do
          let semi ← expectPunct ';'
          return .declareAttribute name (Span.join start semi.span) : Parser Item) next) := by
    rintro name next ⟨tok, here, names⟩
    refine (here.expectPunct ';').andThen ?_
    rintro semi post ⟨ends, here⟩
    refine ⟨_, by simpa using here, ?_, List.nil_subset _, .skip _⟩
    rintro word begins rfl
    refine ⟨?_, .join rfl rfl⟩
    rcases names with quoted | ⟨named, rfl⟩
    · exact .directive (.quoted begins rfl quoted ends)
    · exact .directive (.unquoted begins named ends)
  simp only [Reply.andThen]
  refine Ends.andThen ?_ goesOn
  cases kind : (head (settle s)).kind with
  | string v =>
    have read := here.step (by rw [kind]; exact TokenClass.noConfusion)
    rw [← step_settle] at read
    exact ⟨_, read, .inl kind⟩
  | _ =>
    refine (here.settle.expectIdent "attribute name").andThen ?_
    rintro _ post ⟨name, named, rfl, here⟩
    exact ⟨name, here, .inr ⟨named, rfl⟩⟩

theorem sound_itemAfter (starts : kw.startsItem) (lines : doc ⊆ src.lines) :
    SoundItem src kw start ns (itemAfter kw start doc ns) := by
  cases kw with
  | namespaceWord => exact sound_scopeDirective
  | includeWord => exact sound_quoted rfl (fun _ _ => rfl) (fun _ _ => rfl) (fun _ _ => rfl)
  | attributeWord => exact sound_attributeDirective
  | rootTypeWord => exact sound_rootDirective
  | fileIdentifierWord => exact sound_quoted rfl (fun _ _ => rfl) (fun _ _ => rfl) (fun _ _ => rfl)
  | fileExtensionWord => exact sound_quoted rfl (fun _ _ => rfl) (fun _ _ => rfl) (fun _ _ => rfl)
  | enumWord => exact (sound_enumDecl lines).item
  | unionWord => exact (sound_unionDecl lines).item
  | structWord => exact (sound_structDecl lines).item
  | tableWord => exact (sound_tableDecl lines).item
  | serviceWord => exact (sound_serviceDecl lines).item
  | trueWord | falseWord => cases starts

/-- What reading an item gives goes before the items of what follows: nothing where it was a lone
semicolon. -/
structure ItemRead (ns : List String) (used : List Token) (hit : Option Item) : Prop where
  nonempty : used ≠ []
  goesOn : ∀ kept items, ItemsOf (hit.toList.foldl Item.scopeAfter ns) kept items →
    ItemsOf ns (used ++ kept) (hit.toList.map Item.plain ++ items)

theorem sound_item (ns : List String) :
    Sound src (item ns) (ItemRead ns) (fun hit => hit.toList.flatMap Item.docLines)
      fun hit => hit.toList.map Item.outline := by
  intro kept s here
  rw [item, bind_run]
  refine here.takeDoc.andThen ?_
  rintro doc next ⟨lines, here⟩
  rw [bind_run, show current next = .done (head (settle next)) (settle next) from rfl]
  simp only [Reply.andThen]
  split
  · next lone =>
      have read := here.stepPunct lone
      rw [← step_settle] at read
      exact ⟨_, read, ⟨List.cons_ne_nil _ _, fun _ _ derives => .semicolon lone derives⟩,
        List.nil_subset _, .skip _⟩
  · cases kind : (head (settle next)).kind with
    | keyword kw =>
      simp only
      split
      · next starts =>
          have read := here.step (by rw [kind]; exact TokenClass.noConfusion)
          rw [bind_run, advance_run, step_settle]
          simp only [Reply.andThen]
          refine Ends.andThen (sound_itemAfter starts lines read) ?_
          rintro item post ⟨used, here, means, documented, _⟩
          rcases means _ kind rfl with ⟨means, covers⟩
          refine ⟨_ :: used, by simpa using here, ⟨List.cons_ne_nil _ _, ?_⟩,
            by simpa using documented, covers⟩
          intro others items derives
          refine .cons means ?_
          rw [Item.scopeAfter_plain]
          exact derives
      · exact .fail here.settle _
    | _ => exact .fail here.settle _

end

theorem recoverItem_passes (depth : Nat) (s : ParserState) : Passes s (recoverItem depth s) := by
  induction len : s.rest.length using Nat.strongRecOn generalizing s depth with
  | ind bound ih =>
  rw [recoverItem]
  split
  · exact .settle s
  · next tok post opened =>
      have shorter := length_settle_le s
      rw [opened, len] at shorter
      have goesOn (deeper : Nat) : Passes s (recoverItem deeper { settle s with rest := post }) :=
        (Passes.skip opened).trans (ih _ shorter _ _ rfl)
      split
      · exact .settle s
      · grind [Passes.skip]

/-- The items read derive from some of the tokens, and from all of them without a report. -/
def ItemsRead (ns : List String) (pre : ParserState) (read : List Item)
    (reports : List Diagnostic) : Prop :=
  ∃ kept,
    ItemsOf ns kept (read.map Item.plain) ∧
      kept.Sublist (withoutDocs pre.rest) ∧
        pre.reports.length ≤ reports.length ∧
          (reports.length = pre.reports.length → kept = withoutDocs pre.rest) ∧
            (∀ item ∈ read, ∀ line ∈ item.docLines, line ∈ pre.lines) ∧
              Covers kept (read.map Item.outline)

/-- What is read after a first stretch extends what that gave. -/
theorem ItemsRead.extend {lead read : List Item} (keeps : Retains pre front mid)
    (goesOn : ∀ kept items, ItemsOf later kept items →
      ItemsOf ns (front ++ kept) (lead.map Item.plain ++ items))
    (documented : lead.flatMap Item.docLines ⊆ pre.lines)
    (covers : Covers front (lead.map Item.outline))
    (rest : ItemsRead later mid read reports) : ItemsRead ns pre (lead ++ read) reports := by
  have less := keeps.passes.reports_le
  rcases keeps.split with ⟨all, split, sublist, quiet⟩
  rcases rest with ⟨kept, derives, others, fewer, silent, lines, coversRest⟩
  have whole : withoutDocs pre.rest = withoutDocs all ++ withoutDocs mid.rest := by
    rw [split, withoutDocs_append]
  refine ⟨front ++ kept, ?_, ?_, Nat.le_trans less fewer, ?_, ?_, ?_⟩
  · grind
  · rw [whole]
    exact sublist.append others
  · grind
  · intro item mem line isLine
    rcases List.mem_append.mp mem with own | later
    · exact documented (List.mem_flatMap.mpr ⟨item, own, isLine⟩)
    · exact keeps.passes.lines (lines item later line isLine)
  · rw [List.map_append]
    exact covers.append coversRest

theorem items_read (eof : s.last.kind = .eof)
    (fits : ∀ tok ∈ s.rest, tok.kind ≠ .eof) (ns : List String) (read : List Item) :
    ∃ more, (items ns read s).1 = read ++ more ∧ ItemsRead ns s more (items ns read s).2 := by
  induction len : s.rest.length using Nat.strongRecOn generalizing s ns read with
  | ind bound ih =>
  have here := (Retains.refl eof).settle
  rw [items]
  split
  · next ends =>
      refine ⟨[], by simp, [], .nil, List.nil_sublist _, Nat.le_refl _, ?_, by simp, .skip _⟩
      rcases here.split with ⟨all, split, _, plain⟩
      rcases head_settle_cases s with ⟨empty, _⟩ | ⟨tok, rest, hit, isHead, _⟩
      · grind
      · have isEof : tok.kind = .eof := by
          rw [isHead] at ends
          exact of_decide_eq_true ends
        grind
  · -- A round gives the items of what it kept, and the rounds after it go on behind them.
    have goesOn : ∀ {lead kept next}, Retains s kept next →
        (∀ later items, ItemsOf (lead.foldl Item.scopeAfter ns) later items →
          ItemsOf ns (kept ++ later) (lead.map Item.plain ++ items)) →
        lead.flatMap Item.docLines ⊆ s.lines → Covers kept (lead.map Item.outline) →
        next.rest.length < s.rest.length →
        ∃ more,
          (items (lead.foldl Item.scopeAfter ns) (read ++ lead) next).1 = read ++ more ∧
            ItemsRead ns s more (items (lead.foldl Item.scopeAfter ns) (read ++ lead) next).2 := by
      intro lead kept next keeps derives documented covers fewer
      have within : ∀ tok ∈ next.rest, tok.kind ≠ .eof := by
        intro tok mem
        exact fits tok (keeps.passes.isSuffix.subset mem)
      rcases ih _ (by rw [← len]; exact fewer) keeps.eof within _ (read ++ lead) rfl with
        ⟨more, listed, rest⟩
      refine ⟨lead ++ more, ?_, rest.extend keeps derives documented covers⟩
      rw [← List.append_assoc]
      exact listed
    have one := sound_item ns here
    cases ended : item ns (settle s) with
    | done hit next =>
      rw [ended] at one
      rcases one with ⟨used, here, ⟨nonempty, derives⟩, documented, covers⟩
      have fewer := here.length_lt nonempty
      have given := goesOn here derives documented covers fewer
      grind
    | failed next =>
      rw [ended] at one
      have faults : Faults s (recoverItem 0 { next with docs := [] }) := by
        have recovers := (Passes.dropDocs next).trans (recoverItem_passes 0 _)
        exact ⟨one.passes.trans recovers, Nat.lt_of_lt_of_le one.reports_lt recovers.reports_le⟩
      simp only
      split
      · next fewer =>
          exact goesOn ((Retains.refl eof).faults faults) (fun _ _ derives => derives)
            (List.nil_subset _) (.skip _) fewer
      · refine ⟨[], by simp, [], .nil, List.nil_sublist _, faults.passes.reports_le, ?_, by simp,
          .skip _⟩
        intro quiet
        exact (Nat.ne_of_gt faults.reports_lt quiet).elim

end Parser

end FlatSchema
