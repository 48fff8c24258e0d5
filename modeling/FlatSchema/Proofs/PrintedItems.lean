import FlatSchema.Proofs.Documented
import FlatSchema.Proofs.PrintedTokens

/-!
# What printed items tell

Printed text is made of lines.  A member or a declaration is written as its
lines of documentation and then lines that spell the tokens which derive it, so
the lines tell it, and the lines of printable items tell these items.  Indents
and the blank lines between items say nothing.
-/

namespace FlatSchema

open Noted

variable {ns doc : List String}

open Grammar Lexer

/-! ## Lines -/

/-- A layout whose indents are blanks and whose lines end in one of the two usual ways. -/
structure PrintStyle.Plain (style : PrintStyle) : Prop where
  indent : ∀ char ∈ style.indent.toList, char = ' ' ∨ char = '\t'
  lineEnding : style.lineEnding = "\n" ∨ style.lineEnding = "\r\n"

theorem PrintStyle.plain_standard : PrintStyle.standard.Plain :=
  ⟨List.forall_iff_forall_mem.mp (by decide), .inl rfl⟩

/-- Lines with their endings. -/
def endLines (ending : String) : List String → String
  | [] => ""
  | line :: lines => line ++ (ending ++ endLines ending lines)

theorem endLines_append (ending : String) (fst snd : List String) :
    endLines ending (fst ++ snd) = endLines ending fst ++ endLines ending snd := by
  induction fst with
  | nil => rw [List.nil_append, endLines, String.empty_append]
  | cons line lines ih =>
    rw [List.cons_append, endLines, endLines, ih, String.append_assoc, String.append_assoc]

/-- One ending between lines and one behind the last. -/
theorem intercalate_endLines (ending : String) (nonempty : lines ≠ []) :
    ending.intercalate lines ++ ending = endLines ending lines := by
  induction lines with
  | nil => exact absurd rfl nonempty
  | cons line lines ih =>
    cases lines with
    | nil => rw [String.intercalate_singleton, endLines, endLines, String.append_empty]
    | cons next lines =>
      rw [String.intercalate_cons_cons, String.append_assoc, String.append_assoc,
        ih (List.cons_ne_nil _ _)]
      rfl

/-! ## Texts that tell something -/

/-- A text spells tokens with documentation of which something holds, whatever stands behind it. -/
def Tells (text : String) (holds : List Noted → Prop) : Prop :=
  ∃ lexemes,
    Spells text.toList lexemes anything ∧
      ∀ toks : List Token, toks.map Token.lexeme = lexemes →
        ∃ noted,
          holds noted ∧
            ∀ rest, ofTokens [] (toks ++ rest) = noted ++ ofTokens [] rest

/-- Tokens without documentation. -/
def Noted.bare (toks : List Token) : List Noted :=
  toks.map fun tok => ([], tok)

theorem Noted.map_snd_bare (toks : List Token) : (bare toks).map Prod.snd = toks := by
  rw [bare, List.map_map]
  exact List.map_id toks

theorem Noted.flatMap_fst_bare (toks : List Token) : (bare toks).flatMap Prod.fst = [] := by
  simp [bare]

/-- Tokens of which something holds, with documentation before the first of them. -/
def Documents (doc : List String) (holds : List Token → Prop) (noted : List Noted) : Prop :=
  ∃ tok toks, noted = (doc, tok) :: bare toks ∧ holds (tok :: toks)

theorem Documents.spec (documents : Documents doc holds noted) :
    holds (noted.map Prod.snd) ∧ first noted = doc ∧ behind noted = [] := by
  rcases documents with ⟨tok, toks, rfl, holds⟩
  refine ⟨?_, rfl, flatMap_fst_bare toks⟩
  rwa [List.map_cons, map_snd_bare]

theorem Noted.ofTokens_of_docs
    (same : toks.map Token.lexeme = doc.map fun line => (.doc, line)) (waiting : List String)
    (rest : List Token) : ofTokens waiting (toks ++ rest) = ofTokens (waiting ++ doc) rest := by
  induction doc generalizing toks waiting with
  | nil =>
    simp_all
  | cons line doc ih =>
    rcases List.map_eq_cons_iff.mp same with ⟨tok, others, rfl, lexeme, same⟩
    grind [ofTokens, Token.lexeme]

theorem Noted.ofTokens_bare (plain : ∀ tok ∈ toks, tok.kind ≠ .doc) (rest : List Token) :
    ofTokens [] (toks ++ rest) = bare toks ++ ofTokens [] rest := by
  induction toks with
  | nil => rfl
  | cons tok toks ih =>
    grind [ofTokens, bare]

namespace Tells

variable {text fst snd : String} {holds other one two : List Noted → Prop}

theorem imp (tells : Tells text holds) (implies : ∀ noted, holds noted → other noted) :
    Tells text other := by
  grind [Tells]

theorem append (left : Tells fst one) (right : Tells snd two) :
    Tells (fst ++ snd)
      (fun noted => ∃ front back, noted = front ++ back ∧ one front ∧ two back) := by
  rcases left with ⟨lexemes, spells, derives⟩
  rcases right with ⟨others, spellsOthers, derivesOthers⟩
  refine ⟨lexemes ++ others, ?_, ?_⟩
  · rw [String.toList_append]
    exact spells.append spellsOthers fun _ _ => meets_anything _
  · intro toks same
    rcases List.map_eq_append_iff.mp same with ⟨front, back, rfl, sameFront, sameBack⟩
    rcases derives front sameFront with ⟨noted, holds, split⟩
    rcases derivesOthers back sameBack with ⟨more, holdsMore, splitMore⟩
    refine ⟨noted ++ more, ⟨noted, more, rfl, holds, holdsMore⟩, ?_⟩
    grind

theorem blanks (areBlank : ∀ char ∈ text.toList, isBlank char) :
    Tells text (fun noted => noted = []) := by
  refine ⟨[], .blanks areBlank, fun toks same => ⟨[], rfl, fun rest => ?_⟩⟩
  rw [List.map_eq_nil_iff.mp same]
  rfl

theorem nothing : Tells "" (fun noted => noted = []) :=
  blanks nofun

end Tells

theorem Writes.tells (writes : Writes line holds anything) :
    Tells line (fun noted => ∃ toks, noted = bare toks ∧ holds toks) := by
  rcases writes with ⟨lexemes, spells, plain, derives⟩
  refine ⟨lexemes, spells, fun toks same => ?_⟩
  refine ⟨bare toks, ⟨toks, rfl, derives toks same⟩, ofTokens_bare ?_⟩
  intro tok mem
  exact plain tok.lexeme (same ▸ List.mem_map_of_mem mem)

theorem Writes.tellsDocumented
    (documents : Spells docs.toList (doc.map fun text => (.doc, text)) anything)
    (writes : Writes line holds anything) (nonempty : ∀ toks, holds toks → toks ≠ []) :
    Tells (docs ++ line) (Documents doc holds) := by
  rcases writes with ⟨lexemes, spells, plain, derives⟩
  refine ⟨(doc.map fun text => (.doc, text)) ++ lexemes, ?_, ?_⟩
  · rw [String.toList_append]
    exact documents.append spells fun _ _ => meets_anything _
  · intro toks same
    rcases List.map_eq_append_iff.mp same with ⟨lines, own, rfl, sameLines, sameOwn⟩
    have holdsOwn := derives own sameOwn
    have plainOwn : ∀ tok ∈ own, tok.kind ≠ .doc := by
      intro tok mem
      exact plain tok.lexeme (sameOwn ▸ List.mem_map_of_mem mem)
    cases own with
    | nil => exact absurd rfl (nonempty [] holdsOwn)
    | cons tok own =>
      refine ⟨_, ⟨tok, own, rfl, holdsOwn⟩, ?_⟩
      intro rest
      rw [List.append_assoc, ofTokens_of_docs sameLines, ofTokens_eq_push,
        ofTokens_bare plainOwn]
      simp [bare, push]

section

variable {style : PrintStyle} (plain : style.Plain)

include plain

theorem isBlank_ending : ∀ char ∈ style.lineEnding.toList, isBlank char := by
  rcases plain.lineEnding with ending | ending
  · rw [ending]
    exact List.all_eq_true.mp (by decide)
  · rw [ending]
    exact List.all_eq_true.mp (by decide)

theorem isReturn_ending :
    ∃ returned, style.lineEnding.toList = returned ++ ['\n'] ∧ IsReturn returned := by
  rcases plain.lineEnding with ending | ending
  · exact ⟨[], by rw [ending]; rfl, .inl rfl⟩
  · exact ⟨['\r'], by rw [ending]; rfl, .inr rfl⟩

theorem isBlank_indent : ∀ char ∈ style.indent.toList, isBlank char := by
  intro char mem
  rcases plain.indent char mem with rfl | rfl <;> rfl

theorem writes_indent : Writes style.indent (fun toks => toks = []) anything :=
  .blanks (isBlank_indent plain)

theorem spells_doc (areBlank : ∀ char ∈ indent.toList, isBlank char)
    (areLines : ∀ line ∈ doc, IsLine line) :
    Spells (endLines style.lineEnding (printDoc indent doc)).toList
      (doc.map fun line => (.doc, line)) anything := by
  rcases isReturn_ending plain with ⟨returned, ending, isReturn⟩
  induction doc with
  | nil => exact .nil
  | cons line doc ih =>
    have others := ih fun other mem => areLines other (List.mem_cons_of_mem _ mem)
    rcases areLines line List.mem_cons_self with ⟨noBreak, noReturn⟩
    have own := Spells.doc noBreak noReturn isReturn
    have text : (endLines style.lineEnding (printDoc indent (line :: doc))).toList =
        indent.toList ++ (('/' :: '/' :: '/' :: (docBody line.toList ++ returned ++ ['\n'])) ++
          (endLines style.lineEnding (printDoc indent doc)).toList) := by
      have empty : line.isEmpty = line.toList.isEmpty := by
        rw [Bool.eq_iff_iff, String.isEmpty_iff, List.isEmpty_iff, String.toList_eq_nil_iff]
      simp only [printDoc, List.map_cons, endLines, docBody, empty]
      split
      · simp [ending]
      · simp [ending]
    rw [text]
    rw [String.ofList_toList] at own
    exact (Spells.blanks areBlank).append (own.append others fun _ _ => meets_anything _)
      fun _ _ => meets_anything _

/-- A line behind its documentation. -/
theorem tells_line (areBlank : ∀ char ∈ indent.toList, isBlank char)
    (areLines : ∀ line ∈ doc, IsLine line) (writes : Writes line holds anything)
    (nonempty : ∀ toks, holds toks → toks ≠ []) :
    Tells (endLines style.lineEnding (printDoc indent doc ++ [line])) (Documents doc holds) := by
  have documented := writes.tellsDocumented (spells_doc plain areBlank areLines) nonempty
  have text : endLines style.lineEnding (printDoc indent doc ++ [line]) =
      endLines style.lineEnding (printDoc indent doc) ++ line ++ style.lineEnding := by
    rw [endLines_append, endLines, endLines, String.append_empty, String.append_assoc]
  rw [text]
  refine (documented.append (.blanks (isBlank_ending plain))).imp ?_
  grind

/-- A line without documentation. -/
theorem tells_bareLine (writes : Writes line holds anything) :
    Tells (endLines style.lineEnding [line])
      (fun noted => ∃ toks, noted = bare toks ∧ holds toks) := by
  rw [endLines, endLines, String.append_empty]
  refine (writes.tells.append (.blanks (isBlank_ending plain))).imp ?_
  grind

/-! ## Members -/

variable {α : Type}

/-- What a relation derives, with a comma behind it. -/
def Listed (means : List Token → α → Prop) (toks : List Token) (v : α) : Prop :=
  ∃ own comma, toks = own ++ [comma] ∧ means own v ∧ comma.isPunct ','

/-- The word that a declaration begins with. -/
def DeclBody.keyword : DeclBody → Keyword
  | .enum .. => .enumWord
  | .union .. => .unionWord
  | .struct .. => .structWord
  | .table .. => .tableWord
  | .service .. => .serviceWord

/-- What stands between the name and the attributes: the type of an enumeration. -/
def DeclBody.TypedBy (toks : List Token) : DeclBody → Prop
  | .enum base _ =>
    ∃ colon typeToks,
      toks = colon :: typeToks ∧ colon.isPunct ':' ∧ TypeOf typeToks base.unplaced
  | _ => toks = []

/-- The members of a declaration up to its brace, each with its documentation. -/
def DeclBody.ToldBy (waiting : List String) (between : List Noted) : DeclBody → Prop
  | .enum _ vs =>
    Series EnumValueOf waiting between ((vs.map EnumValue.unplaced).map EnumValue.undocumented)
      (vs.map EnumValue.doc) []
  | body => BodyTold waiting body.keyword between body.unplaced.undocumented body.memberDocs []

/-- What tells something, once a closing brace stands behind it. -/
def Unclosed (told : List Noted → Prop) (between : List Noted) : Prop :=
  ∀ last : Noted, last.2.isPunct '}' → told (between ++ [last])

/-- The tokens up to the brace that opens a declaration. -/
inductive HeadOf (dec : Decl) : List Token → Prop where
  | head {word name lead : Token} {typeToks attrToks : List Token}
      (begins : word.kind = .keyword dec.body.keyword) (named : name.kind = .ident)
      (text : name.text = dec.name) (typed : dec.body.TypedBy typeToks)
      (attributed : AttributesOf attrToks (dec.attributes.map Attribute.unplaced))
      (opens : lead.isPunct '{') : HeadOf dec (word :: name :: (typeToks ++ (attrToks ++ [lead])))

omit plain in
theorem tells_members {place strip : α → α} {doc : α → List String} {vs : List α}
    (told : List Noted → List α → List (List String) → Prop) (nil : Unclosed (told · [] []) [])
    (each : ∀ v ∈ vs,
      Tells (endLines style.lineEnding (print v))
        (fun noted => ∀ rest vs docs, told rest vs docs →
          told (noted ++ rest) (strip (place v) :: vs) (doc v :: docs))) :
    Tells (endLines style.lineEnding (vs.flatMap print))
      (Unclosed (told · ((vs.map place).map strip) (vs.map doc))) := by
  induction vs with
  | nil =>
    refine Tells.nothing.imp ?_
    rintro _ rfl
    exact nil
  | cons v vs ih =>
    have others := ih fun other mem => each other (List.mem_cons_of_mem _ mem)
    rw [List.flatMap_cons, endLines_append]
    refine ((each v List.mem_cons_self).append others).imp ?_
    rintro _ ⟨_, _, rfl, own, told⟩ last closes
    rw [List.append_assoc]
    exact own _ _ _ (told last closes)

omit plain in
theorem tells_told {place strip : α → α}
    {doc : α → List String} {print : α → List String} {vs : List α}
    (each : ∀ v ∈ vs,
      Tells (endLines style.lineEnding (print v)) (Documents (doc v) (means · (strip (place v))))) :
    Tells (endLines style.lineEnding (vs.flatMap print))
      (Unclosed (Told means [] · ((vs.map place).map strip) (vs.map doc) [])) := by
  refine tells_members (Told means [] · · · []) (fun _ => Told.nil) fun v mem => (each v mem).imp ?_
  intro noted documents rest others docs told
  rcases documents.spec with ⟨derives, first, behind⟩
  rw [← first]
  exact .cons derives (by rwa [behind])

omit plain in
theorem tells_series {place strip : α → α}
    {doc : α → List String} {print : α → List String} {vs : List α}
    (each : ∀ v ∈ vs,
      Tells (endLines style.lineEnding (print v))
        (Documents (doc v) (Listed means · (strip (place v))))) :
    Tells (endLines style.lineEnding (vs.flatMap print))
      (Unclosed (Series means [] · ((vs.map place).map strip) (vs.map doc) [])) := by
  refine tells_members (Series means [] · · · []) (fun _ => Series.nil) fun v mem =>
    (each v mem).imp ?_
  intro noted documents rest others docs told
  rcases documents.spec with ⟨⟨own, comma, split, derives, dvd⟩, first, behind⟩
  rw [← first]
  exact .cons derives dvd split (by rwa [behind])

theorem writes_fieldLine {f : Field} (prints : f.Printable) :
    Writes
      (style.indent ++ f.name ++ ": " ++ f.type.print ++ printDefault f.default ++
        printAttributes f.attributes ++ ";") (FieldOf · f.unplaced.undocumented) anything := by
  have attributed := (writes_attributes prints.attributes).append writes_semicolon
  have opensAttributes := opens_attributes f.attributes opens_semicolon
  have defaulted := (writes_default prints.default).before attributed opensAttributes
  have typed := (writes_type prints.type).before defaulted (opens_default f.default opensAttributes)
  have named := (writes_mayName prints.name).ofWord.before (writes_colon.append typed)
    (.append ⟨_, _, rfl, rfl⟩ _)
  simp only [String.append_assoc]
  refine ((writes_indent plain).append named).imp ?_
  rintro _ ⟨_, _, rfl, rfl, _, _, rfl, ⟨name, rfl, mayName, text⟩, _, _, rfl,
    ⟨colon, rfl, dvd⟩, _, _, rfl, typed, _, _, rfl, defaulted, _, _, rfl, attributed,
    semi, rfl, ends⟩
  have derives := FieldOf.member mayName dvd typed defaulted attributed ends
  rw [text] at derives
  exact derives

theorem tells_field {f : Field} (prints : f.Printable) (areLines : ∀ line ∈ f.doc, IsLine line) :
    Tells (endLines style.lineEnding (f.print style.indent))
      (Documents f.doc (FieldOf · f.unplaced.undocumented)) := by
  refine tells_line plain (isBlank_indent plain) areLines (writes_fieldLine plain prints) ?_
  intro toks derives
  rcases Parser.named_field derives with ⟨name, tail, rfl, _⟩
  exact List.cons_ne_nil _ _

theorem writes_methodLine {method : Method} (prints : method.Printable) :
    Writes
      (style.indent ++ method.name ++ "(" ++ method.requestType ++ "): " ++ method.responseType ++
        printAttributes method.attributes ++ ";")
      (MethodOf · method.unplaced.undocumented) anything := by
  have lead : Writes "(" (Single fun tok => tok.isPunct '(') anything :=
    writes_mark [] [] rfl (by decide) (by decide) rfl rfl
  have closing : Writes ")" (Single fun tok => tok.isPunct ')') anything :=
    writes_mark [] [] rfl (by decide) (by decide) rfl rfl
  have divided : "): " = ")" ++ ": " := rfl
  have attributed := (writes_attributes prints.attributes).append writes_semicolon
  have answered := (writes_isPath prints.response).before attributed
    (opens_attributes method.attributes opens_semicolon)
  have asked := (writes_isPath prints.request).before
    (closing.append (writes_colon.append answered)) (.append ⟨_, _, rfl, rfl⟩ _)
  have named := (writes_name prints.name).ofWord.before (lead.append asked)
    (.append ⟨_, _, rfl, rfl⟩ _)
  simp only [divided, String.append_assoc]
  refine ((writes_indent plain).append named).imp ?_
  rintro _ ⟨_, _, rfl, rfl, _, _, rfl, ⟨name, rfl, ident, text⟩, _, _, rfl,
    ⟨mark, rfl, opens⟩, _, _, rfl, ⟨request, asks, requested⟩, _, _, rfl, ⟨last, rfl, closes⟩,
    _, _, rfl, ⟨colon, rfl, dvd⟩, _, _, rfl, ⟨response, answers, responded⟩, _, _, rfl,
    attributed, semi, rfl, ends⟩
  have derives := MethodOf.member ident opens asks closes dvd answers attributed ends
  rw [text, ← requested, ← responded] at derives
  exact derives

theorem tells_method {method : Method} (prints : method.Printable)
    (areLines : ∀ line ∈ method.doc, IsLine line) :
    Tells (endLines style.lineEnding (method.print style.indent))
      (Documents method.doc (MethodOf · method.unplaced.undocumented)) := by
  refine tells_line plain (isBlank_indent plain) areLines (writes_methodLine plain prints) ?_
  intro toks derives
  rcases Parser.named_method derives with ⟨name, tail, rfl, _⟩
  exact List.cons_ne_nil _ _

omit plain in
theorem listed_ne_nil {v : α} (toks : List Token) (listed : Listed means toks v) : toks ≠ [] := by
  grind [List.concat_ne_nil, Listed]

theorem tells_enumValue {v : EnumValue} (isName : IsName v.name)
    (areLines : ∀ line ∈ v.doc, IsLine line) :
    Tells (endLines style.lineEnding (v.print style.indent))
      (Documents v.doc (Listed EnumValueOf · v.unplaced.undocumented)) := by
  refine tells_line plain (isBlank_indent plain) areLines ?_ listed_ne_nil
  have named := (writes_name isName).ofWord
  rcases v with ⟨name, num, doc, span⟩
  cases num with
  | none =>
    simp only [String.append_assoc, String.empty_append]
    refine ((writes_indent plain).append (named.before writes_comma ⟨_, _, rfl, rfl⟩)).imp ?_
    rintro _ ⟨_, _, rfl, rfl, _, _, rfl, ⟨tok, rfl, ident, rfl⟩, comma, rfl, dvd⟩
    exact ⟨[tok], comma, rfl, .plain ident, dvd⟩
  | some num =>
    have numbered := writes_equals.append ((writes_int num).before writes_comma ⟨_, _, rfl, rfl⟩)
    simp only [String.append_assoc]
    refine ((writes_indent plain).append
      (named.before numbered (.append ⟨_, _, rfl, rfl⟩ _))).imp ?_
    rintro _ ⟨_, _, rfl, rfl, _, _, rfl, ⟨tok, rfl, ident, rfl⟩, _, _, rfl,
      ⟨equals, rfl, gives⟩, _, _, rfl, lit, comma, rfl, dvd⟩
    exact ⟨_, comma, rfl, .numbered ident gives lit, dvd⟩

theorem tells_variant {alt : Variant} (isPath : IsPath alt.typeName)
    (areLines : ∀ line ∈ alt.doc, IsLine line) :
    Tells (endLines style.lineEnding (alt.print style.indent))
      (Documents alt.doc (Listed VariantOf · alt.unplaced.undocumented)) := by
  refine tells_line plain (isBlank_indent plain) areLines ?_ listed_ne_nil
  simp only [String.append_assoc]
  refine ((writes_indent plain).append
    ((writes_isPath isPath).before writes_comma ⟨_, _, rfl, rfl⟩)).imp ?_
  rintro _ ⟨_, _, rfl, rfl, _, _, rfl, ⟨parts, path, text⟩, comma, rfl, dvd⟩
  have derives := VariantOf.named path
  rw [← text] at derives
  exact ⟨_, comma, rfl, derives, dvd⟩

theorem tells_body {body : DeclBody} (prints : body.Printable)
    (areLines : ∀ line ∈ body.docLines, IsLine line) :
    Tells (endLines style.lineEnding (body.print style.indent)) (Unclosed (body.ToldBy [] ·)) := by
  have own {α : Type} {doc : α → List String} {vs : List α}
      (areLines : ∀ line ∈ vs.flatMap doc, IsLine line) : ∀ v ∈ vs, ∀ line ∈ doc v, IsLine line :=
    fun v mem line inDoc => areLines line (List.mem_flatMap.mpr ⟨v, mem, inDoc⟩)
  cases body with
  | enum base vs =>
    exact tells_series fun v mem => tells_enumValue plain (prints.2 v mem) (own areLines v mem)
  | union alts =>
    exact (tells_series fun alt mem => tells_variant plain (prints alt mem)
      (own areLines alt mem)).imp fun _ told last closes => .union (told last closes)
  | struct fs =>
    exact (tells_told fun f mem => tells_field plain (prints f mem)
      (own areLines f mem)).imp fun _ told last closes => .struct (told last closes)
  | table fs =>
    exact (tells_told fun f mem => tells_field plain (prints f mem)
      (own areLines f mem)).imp fun _ told last closes => .table (told last closes)
  | service methods =>
    exact (tells_told fun method mem => tells_method plain (prints method mem)
      (own areLines method mem)).imp fun _ told last closes => .service (told last closes)

/-! ## Items -/

omit plain in
/-- The type of an enumeration behind its name. -/
def printUnderlying : DeclBody → String
  | .enum base _ => " : " ++ base.print
  | _ => ""

omit plain in
theorem printHead_eq (dec : Decl) :
    dec.printHead =
      (dec.body.keyword.spelling ++ " ") ++ (dec.name ++
        (printUnderlying dec.body ++ (printAttributes dec.attributes ++ " \x7b"))) := by
  unfold Decl.printHead
  cases dec.body with
  | enum base vs =>
    simp only [printUnderlying, String.append_assoc]
    rfl
  | union | struct | table | service =>
    simp only [printUnderlying, String.append_assoc, String.empty_append]
    rfl

omit plain in
theorem writes_underlying (prints : body.Printable) :
    Writes (printUnderlying body) (body.TypedBy ·) endsNumeral := by
  cases body with
  | enum base vs =>
    have colon : Writes " : " (Single fun tok => tok.isPunct ':') anything :=
      writes_mark [' '] [' '] rfl (by decide) (by decide) (by decide) (by decide)
    refine (colon.append (writes_type prints.1)).imp ?_
    rintro _ ⟨_, _, rfl, ⟨colon, rfl, dvd⟩, typed⟩
    exact ⟨colon, _, rfl, dvd, typed⟩
  | union | struct | table | service => exact Writes.nothing.mono fun _ _ => rfl

omit plain in
theorem opens_underlying (body : DeclBody) (opens : Opens text) :
    Opens (printUnderlying body ++ text) := by
  cases body with
  | enum base vs =>
    rw [printUnderlying, String.append_assoc]
    exact .append ⟨_, _, rfl, rfl⟩ _
  | union | struct | table | service =>
    exact opens

omit plain in
theorem writes_head (prints : dec.Printable ns) : Writes dec.printHead (HeadOf dec ·) anything := by
  have lead : Writes " \x7b" (Single fun tok => tok.isPunct '{') anything :=
    writes_mark [' '] [] rfl (by decide) (by decide) (by decide) rfl
  have opens : Opens " \x7b" := ⟨_, _, rfl, rfl⟩
  have attributed := (writes_attributes prints.attributes).append lead
  have opensAttributes := opens_attributes dec.attributes opens
  have typed := (writes_underlying prints.body).before attributed opensAttributes
  have named := (writes_name prints.name).ofWord.before typed
    (opens_underlying dec.body opensAttributes)
  rw [printHead_eq]
  refine ((writes_keyword dec.body.keyword rfl).append named).imp ?_
  rintro _ ⟨_, _, rfl, ⟨word, rfl, begins⟩, _, _, rfl, ⟨name, rfl, ident, text⟩, _, _, rfl, typed,
    _, _, rfl, attributed, lead, rfl, opens⟩
  exact .head begins ident text typed attributed opens

omit plain in
/-- What a head and the members inside its braces tell. -/
theorem itemTold_of_head (scope_eq : dec.scope = ns)
    (documents : Documents dec.doc (HeadOf dec) used) (told : dec.body.ToldBy [] between) :
    ItemTold [] ns (used ++ between) (Item.declaration dec).plain (Item.declaration dec).docs
      [] := by
  rcases documents.spec with ⟨heads, first, behind⟩
  generalize split : used.map Prod.snd = toks at heads
  rw [← behind] at told
  rcases heads with ⟨begins, named, text, typed, attributed, opens⟩
  rcases dec with ⟨name, own, doc, attrs, body, span⟩
  cases scope_eq
  cases text
  cases first
  cases body with
  | enum base vs =>
    rcases typed with ⟨colon, typeToks, rfl, dvd, typed⟩
    exact .enum begins named dvd typed attributed opens split told
  | union | struct | table | service =>
    cases typed
    exact .other begins named attributed opens split told

theorem tells_decl {dec : Decl} (prints : dec.Printable ns)
    (areLines : ∀ line ∈ dec.docLines, IsLine line) :
    Tells (endLines style.lineEnding (dec.print style.indent))
      (ItemTold [] ns · (Item.declaration dec).plain (Item.declaration dec).docs []) := by
  have noIndent : ∀ char ∈ "".toList, isBlank char := by simp
  have head := tells_line plain noIndent
    (fun line mem => areLines line (List.mem_append_left _ mem)) (writes_head prints)
    (by rintro _ ⟨_⟩; exact List.cons_ne_nil _ _)
  have body := tells_body plain prints.body
    fun line mem => areLines line (List.mem_append_right _ mem)
  have closing : Writes "\x7d" (Single fun tok => tok.isPunct '}') anything :=
    writes_mark [] [] rfl (by decide) (by decide) rfl rfl
  have last := tells_bareLine plain closing
  have lines : dec.print style.indent =
      (printDoc "" dec.doc ++ [dec.printHead]) ++ (dec.body.print style.indent ++ ["\x7d"]) := by
    simp [Decl.print]
  rw [lines, endLines_append, endLines_append _ (dec.body.print style.indent)]
  refine (head.append (body.append last)).imp ?_
  rintro _ ⟨_, _, rfl, heads, between, _, rfl, told, _, rfl, closing, rfl, closes⟩
  exact itemTold_of_head prints.scope_eq heads (told ([], closing) closes)

theorem tells_directive {item : Item}
    (writes : Writes line (DirectiveOf ns · item.unplaced) anything) :
    Tells (endLines style.lineEnding [line]) (ItemTold [] ns · item.plain item.docs []) := by
  refine (tells_bareLine plain writes).imp ?_
  rintro _ ⟨toks, rfl, directs⟩
  rcases Parser.undocumented_directive directs with ⟨plain, none⟩
  have behind : behind (bare toks) = [] := by
    cases toks with
    | nil => rfl
    | cons tok toks => exact flatMap_fst_bare toks
  rw [Item.plain, plain, ← Parser.docs_unplaced, none, ← behind]
  refine .directive ?_
  rwa [map_snd_bare]

omit plain in
theorem writes_stringDirective (kw : Keyword)
    (spelled : word = kw.spelling ++ " ") (directs : stringDirective? kw = some item)
    (text : Text) :
    Writes (word ++ Quoted.quote text ++ ";") (DirectiveOf ns · (item text)) anything := by
  rw [String.append_assoc]
  refine ((writes_keyword kw spelled).append ((writes_quoted text).append writes_semicolon)).imp ?_
  rintro _ ⟨_, _, rfl, ⟨word, rfl, begins⟩, _, _, rfl, ⟨v, rfl, quoted⟩, semi, rfl, ends⟩
  exact .quoted begins directs quoted ends

theorem tells_item {item : Item} (prints : item.Printable ns)
    (areLines : ∀ line ∈ item.docLines, IsLine line) :
    Tells (endLines style.lineEnding (item.print style.indent))
      (ItemTold [] ns · item.plain item.docs []) := by
  cases item with
  | includeFile path span =>
    exact tells_directive plain (writes_stringDirective .includeWord rfl rfl path)
  | declareAttribute name span =>
    exact tells_directive plain (writes_stringDirective .attributeWord rfl rfl name)
  | fileIdentifier v span =>
    exact tells_directive plain (writes_stringDirective .fileIdentifierWord rfl rfl v)
  | fileExtension v span =>
    exact tells_directive plain (writes_stringDirective .fileExtensionWord rfl rfl v)
  | enterScope parts span =>
    cases parts with
    | nil =>
      refine tells_directive plain ?_
      refine ((writes_spelling .namespaceWord).ofWord.before writes_semicolon
        opens_semicolon).imp ?_
      rintro _ ⟨_, _, rfl, ⟨word, rfl, begins⟩, semi, rfl, ends⟩
      exact .leaveScope begins ends
    | cons part parts =>
      refine tells_directive plain ?_
      refine ((writes_keyword .namespaceWord rfl).append
        ((writes_path (List.cons_ne_nil _ _) prints).before writes_semicolon
          opens_semicolon)).imp ?_
      rintro _ ⟨_, _, rfl, ⟨word, rfl, begins⟩, _, _, rfl, path, semi, rfl, ends⟩
      exact .enterScope begins path ends
  | rootType typeName own span =>
    rcases prints with ⟨isPath, rfl⟩
    refine tells_directive plain ?_
    refine ((writes_keyword .rootTypeWord rfl).append
      ((writes_isPath isPath).before writes_semicolon opens_semicolon)).imp ?_
    rintro _ ⟨_, _, rfl, ⟨word, rfl, begins⟩, _, _, rfl, ⟨parts, path, text⟩, semi, rfl, ends⟩
    have directs : DirectiveOf own _ _ := .rootType begins path ends
    rw [← text] at directs
    exact directs
  | declaration decl =>
    exact tells_decl plain prints areLines

omit plain in
theorem print_ne_nil (indent : String) (item : Item) : item.print indent ≠ [] := by
  cases item with
  | enterScope ns span =>
    rw [Item.print]
    split <;> exact List.cons_ne_nil _ _
  | declaration decl => simp [Item.print, Decl.print]
  | _ => exact List.cons_ne_nil _ _

omit plain in
/-- The text of items is the lines of each of them, with a blank line before all but the first. -/
theorem printItems_cons_cons (fst snd : Item) (items : List Item) :
    printItems style (fst :: snd :: items) =
      endLines style.lineEnding (fst.print style.indent) ++
        (style.lineEnding ++ printItems style (snd :: items)) := by
  rw [← intercalate_endLines style.lineEnding (print_ne_nil style.indent fst)]
  simp [printItems, String.append_assoc]

omit plain in
theorem printItems_singleton (item : Item) :
    printItems style [item] = endLines style.lineEnding (item.print style.indent) := by
  rw [← intercalate_endLines style.lineEnding (print_ne_nil style.indent item)]
  simp [printItems]

theorem tells_items (prints : ItemsPrintable ns items)
    (areLines : ∀ item ∈ items, ∀ line ∈ item.docLines, IsLine line) :
    Tells (printItems style items) (fun noted =>
      ∃ portions,
        Portions [] ns portions ∧ portions.flatMap Portion.stretch = noted ∧
          portions.filterMap Portion.item = items.map Item.told) := by
  induction prints with
  | nil =>
    refine Tells.nothing.imp ?_
    rintro _ rfl
    exact ⟨[], .nil, rfl, rfl⟩
  | @cons ns item items fst others ih =>
    have own := tells_item plain fst (areLines item List.mem_cons_self)
    have rest := ih fun other mem => areLines other (List.mem_cons_of_mem _ mem)
    cases items with
    | nil =>
      rw [printItems_singleton]
      refine own.imp ?_
      intro noted told
      exact ⟨[_], .cons told .nil, List.append_nil noted, rfl⟩
    | cons snd items =>
      rw [printItems_cons_cons]
      refine (own.append ((Tells.blanks (isBlank_ending plain)).append rest)).imp ?_
      rintro _ ⟨_, _, rfl, told, _, _, rfl, rfl, portions, others, rfl, listed⟩
      rw [← Item.scopeAfter_plain] at others
      exact ⟨_ :: portions, .cons told others, rfl, congrArg (item.told :: ·) listed⟩

end

end FlatSchema
