import FlatSchema.Proofs.Printable
import FlatSchema.Proofs.QuotedText

/-!
# What printed pieces derive

`Writes text holds allowed` says that a text spells tokens of which something
holds, in front of what begins with an allowed character.  The printed form of
a printable tree spells tokens that derive the tree again: this holds of names,
types, literals and attribute lists, and so of the lines of members and of the
heads of declarations.
-/

namespace FlatSchema

open Grammar Lexer

/-- A text spells tokens of which something holds, none of them documentation. -/
def Writes (text : String) (holds : List Token → Prop) (allowed : Char → Bool) : Prop :=
  ∃ lexemes,
    Spells text.toList lexemes allowed ∧ (∀ lexeme ∈ lexemes, lexeme.1 ≠ .doc) ∧
      ∀ toks : List Token, toks.map Token.lexeme = lexemes → holds toks

/-- Tokens in two stretches. -/
def Joined (fst snd : List Token → Prop) (toks : List Token) : Prop :=
  ∃ one two, toks = one ++ two ∧ fst one ∧ snd two

/-- A single token. -/
def Single (holds : Token → Prop) (toks : List Token) : Prop :=
  ∃ tok, toks = [tok] ∧ holds tok

/-- A text that begins with what ends words and numerals. -/
def Opens (text : String) : Prop :=
  ∃ hd rest, text.toList = hd :: rest ∧ endsNumeral hd

theorem Opens.append (opens : Opens fst) (snd : String) : Opens (fst ++ snd) := by
  grind [String.toList_append, List.cons_append, Opens]

namespace Writes

variable {text fst snd : String} {holds other one two : List Token → Prop}
  {allowed : Char → Bool}

theorem imp (writes : Writes text holds allowed) (implies : ∀ toks, holds toks → other toks) :
    Writes text other allowed := by
  grind [Writes]

theorem mono (writes : Writes text holds wider)
    (fewer : ∀ char, allowed char → wider char) : Writes text holds allowed := by
  rcases writes with ⟨lexemes, spells, plain, derives⟩
  exact ⟨lexemes, spells.mono fewer, plain, derives⟩

/-- A text in front of another that it may stand before. -/
theorem join (left : Writes fst one wider) (right : Writes snd two allowed)
    (meets : ∀ rest, Meets allowed rest → Meets wider (snd.toList ++ rest)) :
    Writes (fst ++ snd) (Joined one two) allowed := by
  rcases left with ⟨lexemes, spells, plain, derives⟩
  rcases right with ⟨others, spellsOthers, plainOthers, derivesOthers⟩
  refine ⟨lexemes ++ others, ?_, ?_, ?_⟩
  · rw [String.toList_append]
    exact spells.append spellsOthers meets
  · grind
  · intro toks same
    rcases List.map_eq_append_iff.mp same with ⟨front, back, rfl, sameFront, sameBack⟩
    exact ⟨front, back, rfl, derives front sameFront, derivesOthers back sameBack⟩

/-- A text that anything may follow. -/
theorem append (left : Writes fst one anything) (right : Writes snd two allowed) :
    Writes (fst ++ snd) (Joined one two) allowed :=
  left.join right fun _ _ => meets_anything _

/-- A text in front of what ends words and numerals. -/
theorem before (left : Writes fst one endsNumeral) (right : Writes snd two allowed)
    (opens : Opens snd) : Writes (fst ++ snd) (Joined one two) allowed := by
  refine left.join right fun rest _ => ?_
  rcases opens with ⟨mark, others, split, ends⟩
  rw [split]
  exact .cons ends _

theorem single (spells : Spells text.toList [(kind, own)] allowed) (plain : kind ≠ .doc) :
    Writes text (Single fun tok => tok.kind = kind ∧ tok.text = own) allowed := by
  refine ⟨[(kind, own)], spells, ?_, ?_⟩
  · grind
  simp_all [Single, Spells, Token.lexeme]

theorem blanks (areBlank : ∀ char ∈ text.toList, isBlank char) :
    Writes text (fun toks => toks = []) anything :=
  ⟨[], .blanks areBlank, by simp, fun _ same => List.map_eq_nil_iff.mp same⟩

theorem nothing : Writes "" (fun toks => toks = []) anything :=
  blanks nofun

end Writes

/-! ## Marks and words -/

theorem writes_mark (pre post : List Char)
    (split : text.toList = pre ++ mark :: post) (isMark : mark ∈ punctuation)
    (noPoint : mark ≠ '.') (blankBefore : pre.all isBlank = true)
    (blankAfter : post.all isBlank = true) :
    Writes text (Single fun tok => tok.isPunct mark) anything := by
  have spells : Spells text.toList [(.punct mark, String.ofList [mark])] anything := by
    rw [split]
    have opened := (Spells.blanks (List.all_eq_true.mp blankBefore)).append
      ((Spells.punct isMark noPoint).append (Spells.blanks (List.all_eq_true.mp blankAfter))
        fun _ _ => meets_anything _) fun _ _ => meets_anything _
    exact opened
  refine (Writes.single spells TokenClass.noConfusion).imp ?_
  rintro toks ⟨tok, rfl, isPunct, _⟩
  exact ⟨tok, rfl, decide_eq_true isPunct⟩

theorem endsWord_of_endsNumeral (ends : endsNumeral char) : endsWord char := by
  rw [endsNumeral, Bool.and_eq_true] at ends
  exact ends.1

theorem Writes.ofWord (writes : Writes word holds endsWord) : Writes word holds endsNumeral :=
  writes.mono fun _ => endsWord_of_endsNumeral

theorem writes_word (isWord : IsWord word.toList) :
    Writes word (Single fun tok => tok.kind = wordKind word ∧ tok.text = word) endsWord := by
  refine Writes.single (Spells.word isWord) ?_
  unfold wordKind
  split <;> exact TokenClass.noConfusion

theorem writes_name (isName : IsName name) :
    Writes name (Single fun tok => tok.kind = .ident ∧ tok.text = name) endsWord := by
  have kind : wordKind name = .ident := by rw [wordKind, isName.2]
  have writes := writes_word isName.1
  rwa [kind] at writes

/-- A word that may be reserved. -/
theorem writes_mayName (isWord : IsWord name.toList) :
    Writes name (Single fun tok => MayName tok ∧ tok.text = name) endsWord := by
  refine (writes_word isWord).imp ?_
  rintro toks ⟨tok, rfl, kind, text⟩
  refine ⟨tok, rfl, ?_, text⟩
  unfold wordKind at kind
  split at kind
  · exact .inr ⟨_, kind⟩
  · exact .inl kind

theorem wordKind_spelling (kw : Keyword) : wordKind kw.spelling = .keyword kw := by
  cases kw <;> rfl

theorem writes_spelling (kw : Keyword) :
    Writes kw.spelling (Single fun tok => tok.kind = .keyword kw) endsWord := by
  refine (writes_word (isWord_spelling kw)).imp ?_
  rintro _ ⟨tok, rfl, kind, _⟩
  exact ⟨tok, rfl, kind.trans (wordKind_spelling kw)⟩

/-- A reserved word and a blank. -/
theorem writes_keyword (kw : Keyword) (split : text = kw.spelling ++ " ") :
    Writes text (Single fun tok => tok.kind = .keyword kw) anything := by
  have blank : Writes " " (fun toks => toks = []) anything :=
    .blanks (List.all_eq_true.mp (by decide))
  rw [split]
  refine ((writes_spelling kw).ofWord.before blank ⟨_, _, rfl, rfl⟩).imp ?_
  rintro _ ⟨_, _, rfl, single, rfl⟩
  rw [List.append_nil]
  exact single

theorem writes_point : Writes "." (Single fun tok => tok.isPunct '.') notDigit := by
  have point : Spells ".".toList [(.punct '.', ".")] notDigit := Spells.point
  refine (Writes.single point TokenClass.noConfusion).imp ?_
  rintro _ ⟨tok, rfl, isPunct, _⟩
  exact ⟨tok, rfl, decide_eq_true isPunct⟩

/-- Names with points between them begin with no digit. -/
theorem meets_path (nonempty : parts ≠ []) (areNames : ∀ part ∈ parts, IsName part)
    (rest : List Char) : Meets notDigit ((".".intercalate parts).toList ++ rest) := by
  cases parts with
  | nil => exact absurd rfl nonempty
  | cons name parts =>
    rcases areNames name List.mem_cons_self with ⟨⟨hd, tail, split, starts, _⟩, _⟩
    have begins : ∃ more, (".".intercalate (name :: parts)).toList = hd :: more := by
      simp_all
    grind [Meets.cons, notDigit, isDigit_of_isNameStart]

theorem writes_path (nonempty : parts ≠ []) (areNames : ∀ part ∈ parts, IsName part) :
    Writes (".".intercalate parts) (Path · parts) endsNumeral := by
  induction parts with
  | nil => exact absurd rfl nonempty
  | cons name parts ih =>
    have named := writes_name (areNames name List.mem_cons_self)
    cases parts with
    | nil =>
      refine named.ofWord.imp ?_
      rintro _ ⟨tok, rfl, ident, rfl⟩
      exact .last ident
    | cons next parts =>
      have areOthers : ∀ part ∈ next :: parts, IsName part :=
        fun part mem => areNames part (List.mem_cons_of_mem _ mem)
      have others := ih (List.cons_ne_nil _ _) areOthers
      have pointed := writes_point.join others fun rest _ =>
        meets_path (List.cons_ne_nil _ _) areOthers rest
      rw [String.intercalate_cons_cons, String.append_assoc]
      refine (named.join pointed fun rest _ => ?_).imp ?_
      · rw [String.toList_append]
        exact .cons rfl _
      · rintro _ ⟨_, _, rfl, ⟨tok, rfl, ident, rfl⟩, _, _, rfl, ⟨point, rfl, dvd⟩, path⟩
        exact .cons ident dvd path

theorem writes_isPath (isPath : IsPath name) :
    Writes name (fun toks => ∃ parts, Path toks parts ∧ name = ".".intercalate parts)
      endsNumeral := by
  rcases isPath with ⟨parts, nonempty, areNames, rfl⟩
  exact (writes_path nonempty areNames).imp fun toks path => ⟨parts, path, rfl⟩

/-! ## Types and literals -/

theorem isName_scalar (kind : ScalarKind) : IsName kind.name := by
  cases kind <;> exact ⟨⟨_, _, rfl, by decide, List.all_eq_true.mp (by decide)⟩, by decide⟩

theorem namedType_scalar (kind : ScalarKind) :
    Parser.namedType kind.name default = .scalar kind default := by
  cases kind <;> rfl

theorem typeOf_word (ident : tok.kind = .ident)
    (means : Parser.namedType tok.text default = ty) : TypeOf [tok] ty := by
  have typed : TypeOf [tok] (Parser.namedType (".".intercalate [tok.text]) default) :=
    .named (.last ident)
  simp_all

theorem writes_type {ty : TypeExpr} (prints : ty.Printable) :
    Writes ty.print (TypeOf · ty.unplaced) endsNumeral := by
  induction ty with
  | scalar kind span =>
    refine (writes_name (isName_scalar kind)).ofWord.imp ?_
    rintro _ ⟨tok, rfl, ident, text⟩
    exact typeOf_word ident (text ▸ namedType_scalar kind)
  | string span =>
    have isName : IsName "string" :=
      ⟨⟨_, _, rfl, by decide, List.all_eq_true.mp (by decide)⟩, by decide⟩
    refine (writes_name isName).ofWord.imp ?_
    rintro _ ⟨tok, rfl, ident, text⟩
    exact typeOf_word ident (by rw [text]; rfl)
  | named name span =>
    refine (writes_isPath prints.1).imp ?_
    rintro toks ⟨parts, path, same⟩
    have typed := TypeOf.named path
    rw [← same, prints.2] at typed
    exact typed
  | vector elem span ih =>
    have lead : Writes "[" (Single fun tok => tok.isPunct '[') anything :=
      writes_mark [] [] rfl (by decide) (by decide) rfl rfl
    have closing : Writes "]" (Single fun tok => tok.isPunct ']') anything :=
      writes_mark [] [] rfl (by decide) (by decide) rfl rfl
    have inner := (ih prints).before closing ⟨_, _, rfl, rfl⟩
    refine ((lead.append inner).imp ?_).mono fun _ _ => rfl
    rintro _ ⟨_, _, rfl, ⟨mark, rfl, opens⟩, _, _, rfl, typed, last, rfl, closes⟩
    exact .vector opens typed closes

theorem writes_minus : Writes "-" (Single fun tok => tok.isPunct '-') anything :=
  writes_mark [] [] rfl (by decide) (by decide) rfl rfl

theorem writes_nat (v : Nat) :
    Writes (toString v) (Single fun tok => tok.kind = .int v) endsNumeral := by
  refine (Writes.single (Spells.nat v) TokenClass.noConfusion).imp ?_
  rintro _ ⟨tok, rfl, kind, _⟩
  exact ⟨tok, rfl, kind⟩

theorem writes_int (v : Int) : Writes (toString v) (LiteralOf · (.int v)) endsNumeral := by
  cases v with
  | ofNat v =>
    refine (writes_nat v).imp ?_
    rintro _ ⟨tok, rfl, numeral⟩
    exact .number (.int numeral)
  | negSucc v =>
    refine (writes_minus.append (writes_nat (v + 1))).imp ?_
    rintro _ ⟨_, _, rfl, ⟨sign, rfl, signed⟩, tok, rfl, numeral⟩
    exact .minus signed (.int numeral)

theorem writes_numberWord (isName : IsName word) (spelled : (word.toLower, v) ∈ numberWords) :
    Writes word (Single fun tok => NumberOf tok (.float v)) endsNumeral := by
  refine (writes_name isName).ofWord.imp ?_
  rintro _ ⟨tok, rfl, ident, rfl⟩
  exact ⟨tok, rfl, .word ident spelled⟩

theorem writes_infinity :
    Writes "inf" (Single fun tok => NumberOf tok (.float (.infinity false))) endsNumeral :=
  writes_numberWord ⟨⟨_, _, rfl, by decide, List.all_eq_true.mp (by decide)⟩, by decide⟩
    (by decide +kernel)

theorem writes_signed (bounded : mag ≤ BinaryFormat.double.infinity)
    (split : text = (if negative then "-" else "") ++ digits)
    (unsigned : Writes digits
      (Single fun tok => NumberOf tok (.float (.ofMagnitude false mag))) endsNumeral) :
    Writes text (LiteralOf · (.float (.ofMagnitude negative mag))) endsNumeral := by
  rw [split]
  cases negative with
  | false =>
    refine unsigned.imp ?_
    rintro _ ⟨tok, rfl, num⟩
    exact .number num
  | true =>
    refine (writes_minus.append unsigned).imp ?_
    rintro _ ⟨_, _, rfl, ⟨sign, rfl, signed⟩, tok, rfl, num⟩
    have negates := LiteralOf.minus signed num
    rw [negated, Double.negate_ofMagnitude bounded] at negates
    exact negates

theorem writes_double (canonical : v.Canonical) :
    Writes v.printLiteral (LiteralOf · (.float v)) endsNumeral := by
  by_cases notNumber : v.isNaN
  · rw [canonical notNumber]
    have word : Writes "nan" (Single fun tok => NumberOf tok (.float .nan)) endsNumeral :=
      writes_numberWord ⟨⟨_, _, rfl, by decide, List.all_eq_true.mp (by decide)⟩, by decide⟩
        (by decide +kernel)
    refine word.imp ?_
    rintro _ ⟨tok, rfl, num⟩
    exact .number num
  have same := Double.ofMagnitude_self v
  by_cases infinite : v.isInfinite
  · have text : v.printLiteral = (if v.isNegative then "-" else "") ++ "inf" := by
      rw [Double.printLiteral, if_neg notNumber, if_pos infinite]
      cases v.isNegative <;> rfl
    have mag : v.magnitude = BinaryFormat.double.infinity := of_decide_eq_true infinite
    have writes := writes_signed (Nat.le_refl _) text writes_infinity
    rwa [← mag, same] at writes
  · have bounded : v.magnitude < BinaryFormat.double.infinity := by
      rw [Double.isNaN, decide_eq_true_iff] at notNumber
      rw [Double.isInfinite, decide_eq_true_iff] at infinite
      omega
    rcases Double.printLiteral_finite (decide_eq_true bounded) with ⟨digits, split, raw⟩
    have text : v.printLiteral = (if v.isNegative then "-" else "") ++ String.ofList digits := by
      rw [← String.toList_inj, split, String.toList_append, String.toList_ofList]
      cases v.isNegative <;> rfl
    have spells := Spells.written raw
    rw [← String.toList_ofList (l := digits)] at spells
    have unsigned : Writes (String.ofList digits)
        (Single fun tok => NumberOf tok (.float (.ofMagnitude false v.magnitude)))
        endsNumeral := by
      refine (Writes.single spells TokenClass.noConfusion).imp ?_
      rintro _ ⟨tok, rfl, kind, _⟩
      exact ⟨tok, rfl, .float kind⟩
    have writes := writes_signed (Nat.le_of_lt bounded) text unsigned
    rwa [same] at writes

theorem writes_quoted (text : Text) :
    Writes (Quoted.quote text) (Single fun tok => tok.kind = .string text) anything := by
  refine (Writes.single (Spells.quoted text) TokenClass.noConfusion).imp ?_
  rintro _ ⟨tok, rfl, kind, _⟩
  exact ⟨tok, rfl, kind⟩

theorem writes_literal (prints : v.Printable) : Writes v.print (LiteralOf · v) endsNumeral := by
  cases v with
  | int v => exact writes_int v
  | float v => exact writes_double prints
  | bool truth =>
    have word : Writes (LiteralValue.bool truth).print
        (Single fun tok => tok.kind = .keyword (if truth then .trueWord else .falseWord))
        endsWord := by
      cases truth with
      | true => exact writes_spelling .trueWord
      | false => exact writes_spelling .falseWord
    refine word.ofWord.imp ?_
    rintro _ ⟨tok, rfl, kind⟩
    exact .bool kind
  | string text =>
    refine ((writes_quoted text).imp ?_).mono fun _ _ => rfl
    rintro _ ⟨tok, rfl, kind⟩
    exact .string kind
  | name word =>
    refine (writes_name prints.1).ofWord.imp ?_
    rintro _ ⟨tok, rfl, ident, rfl⟩
    exact .name ident prints.2

/-! ## Attributes and defaults -/

theorem writes_colon : Writes ": " (Single fun tok => tok.isPunct ':') anything :=
  writes_mark [] [' '] rfl (by decide) (by decide) rfl (by decide)

theorem writes_equals : Writes " = " (Single fun tok => tok.isPunct '=') anything :=
  writes_mark [' '] [' '] rfl (by decide) (by decide) (by decide) (by decide)

theorem writes_comma : Writes "," (Single fun tok => tok.isPunct ',') anything :=
  writes_mark [] [] rfl (by decide) (by decide) rfl rfl

theorem writes_semicolon : Writes ";" (Single fun tok => tok.isPunct ';') anything :=
  writes_mark [] [] rfl (by decide) (by decide) rfl rfl

theorem opens_semicolon : Opens ";" :=
  ⟨_, _, rfl, rfl⟩

theorem writes_attribute {raw : Attribute} (prints : raw.Printable) :
    Writes raw.print (AttributeOf · raw.unplaced) endsNumeral := by
  rcases raw with ⟨name, v, span⟩
  have named := (writes_mayName prints.name).ofWord
  cases v with
  | none =>
    refine named.imp ?_
    rintro _ ⟨tok, rfl, mayName, rfl⟩
    exact .plain mayName
  | some lit =>
    have valued := writes_colon.append (writes_literal (prints.value lit rfl))
    have text : Attribute.print ⟨name, some lit, span⟩ = name ++ (": " ++ lit.value.print) :=
      String.append_assoc
    rw [text]
    refine (named.before valued (.append ⟨_, _, rfl, rfl⟩ _)).imp ?_
    rintro _ ⟨_, _, rfl, ⟨tok, rfl, mayName, rfl⟩, _, _, rfl, ⟨colon, rfl, dvd⟩, lit⟩
    exact .valued mayName dvd lit

theorem writes_attributeEntries (nonempty : attrs ≠ []) (prints : ∀ raw ∈ attrs, raw.Printable) :
    Writes (", ".intercalate (attrs.map Attribute.print))
      (Separated AttributeOf · (attrs.map Attribute.unplaced)) endsNumeral := by
  induction attrs with
  | nil => exact absurd rfl nonempty
  | cons fst rest ih =>
    have one := writes_attribute (prints fst List.mem_cons_self)
    cases rest with
    | nil =>
      exact one.imp fun _ => .last
    | cons snd rest =>
      have others := ih (List.cons_ne_nil _ _)
        fun raw mem => prints raw (List.mem_cons_of_mem _ mem)
      have comma : Writes ", " (Single fun tok => tok.isPunct ',') anything :=
        writes_mark [] [' '] rfl (by decide) (by decide) rfl (by decide)
      rw [List.map_cons, List.map_cons, String.intercalate_cons_cons, String.append_assoc]
      refine (one.before (comma.append others) (.append ⟨_, _, rfl, rfl⟩ _)).imp ?_
      rintro _ ⟨_, _, rfl, derives, _, _, rfl, ⟨comma, rfl, dvd⟩, separated⟩
      exact .cons derives dvd separated

theorem printAttributes_cons (hd : Attribute) (rest : List Attribute) :
    printAttributes (hd :: rest) =
      " (" ++ (", ".intercalate ((hd :: rest).map Attribute.print) ++ ")") := by
  rfl

theorem writes_attributes (prints : ∀ raw ∈ attrs, raw.Printable) :
    Writes (printAttributes attrs) (AttributesOf · (attrs.map Attribute.unplaced)) anything := by
  cases attrs with
  | nil =>
    refine Writes.nothing.imp ?_
    rintro _ rfl
    exact .absent
  | cons hd rest =>
    have lead : Writes " (" (Single fun tok => tok.isPunct '(') anything :=
      writes_mark [' '] [] rfl (by decide) (by decide) (by decide) rfl
    have closing : Writes ")" (Single fun tok => tok.isPunct ')') anything :=
      writes_mark [] [] rfl (by decide) (by decide) rfl rfl
    have es := writes_attributeEntries (List.cons_ne_nil hd rest) prints
    refine (lead.append (es.before closing ⟨_, _, rfl, rfl⟩)).imp ?_
    rintro _ ⟨_, _, rfl, ⟨mark, rfl, opens⟩, _, _, rfl, separated, last, rfl, closes⟩
    exact .listed opens separated closes

/-- An attribute list, where there is one, begins with a blank. -/
theorem opens_attributes (attrs : List Attribute) (opens : Opens text) :
    Opens (printAttributes attrs ++ text) := by
  cases attrs with
  | nil =>
    exact opens
  | cons hd rest =>
    rw [printAttributes_cons, String.append_assoc]
    exact .append ⟨_, _, rfl, rfl⟩ _

/-- The default of a field, as it is printed. -/
def printDefault (given : Option Literal) : String :=
  match given with
  | some lit => " = " ++ lit.value.print
  | none => ""

theorem writes_default (prints : ∀ lit ∈ given, lit.value.Printable) :
    Writes (printDefault given) (DefaultOf · (given.map Literal.unplaced)) endsNumeral := by
  cases given with
  | none =>
    refine (Writes.nothing.imp ?_).mono fun _ _ => rfl
    rintro _ rfl
    exact .absent
  | some lit =>
    refine (writes_equals.append (writes_literal (prints lit rfl))).imp ?_
    rintro _ ⟨_, _, rfl, ⟨equals, rfl, gives⟩, lit⟩
    exact .given gives lit

theorem opens_default (given : Option Literal) (opens : Opens text) :
    Opens (printDefault given ++ text) := by
  cases given with
  | none =>
    exact opens
  | some lit =>
    rw [printDefault, String.append_assoc]
    exact .append ⟨_, _, rfl, rfl⟩ _

end FlatSchema
