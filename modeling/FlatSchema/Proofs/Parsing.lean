import FlatSchema.Proofs.Grammar

/-!
# Steps of the parser

What looking at the next token, reading it and failing do to the state of the
parser.  `Reads before used after` says that reading took some tokens off the
state, of which `used` are no documentation; `Ends` describes how a construct
ends: with a value and a state of which something holds, or with a report.

Documentation lines only move: what waits or is still to come was there
before.
-/

namespace FlatSchema

open Grammar

theorem withoutDocs_append (fst snd : List Token) :
    withoutDocs (fst ++ snd) = withoutDocs fst ++ withoutDocs snd :=
  List.filter_append ..

theorem withoutDocs_eq_nil (docs : ∀ tok ∈ toks, tok.kind = .doc) : withoutDocs toks = [] := by
  grind [withoutDocs, List.filter_eq_nil_iff]

theorem withoutDocs_cons (plain : tok.kind ≠ .doc) (toks : List Token) :
    withoutDocs (tok :: toks) = tok :: withoutDocs toks := by
  grind [withoutDocs]

/-- The lines of the documentation in a list of tokens. -/
def docLines (toks : List Token) : List String :=
  (toks.filter fun tok => tok.kind = .doc).map Token.text

theorem docLines_append (fst snd : List Token) :
    docLines (fst ++ snd) = docLines fst ++ docLines snd := by
  grind [docLines]

namespace Parser

/-- Looking at the next token passes over documentation alone. -/
theorem absorb_spec (docs : List String) (toks : List Token) :
    ∃ lead,
      toks = lead ++ (absorb docs toks).2 ∧ (∀ tok ∈ lead, tok.kind = .doc) ∧
        (absorb docs toks).1 = docs ++ docLines lead ∧
        ∀ tok ∈ (absorb docs toks).2.head?, tok.kind ≠ .doc := by
  induction toks generalizing docs with
  | nil => exact ⟨[], by simp [absorb, docLines]⟩
  | cons tok rest ih =>
    by_cases isDoc : tok.kind = .doc
    · rw [absorb, if_pos isDoc]
      rcases ih (docs ++ [tok.text]) with ⟨lead, split, all, lines, plain⟩
      grind [absorb, docLines]
    simp_all [absorb, docLines]

theorem absorb_of_plain (plain : ∀ tok ∈ toks.head?, tok.kind ≠ .doc) :
    absorb docs toks = (docs, toks) := by
  cases toks with
  | nil => rfl
  | cons tok rest => rw [absorb, if_neg (plain tok rfl)]

variable (s : ParserState)

/-- Looking twice is looking once. -/
theorem settle_settle : settle (settle s) = settle s := by
  rcases absorb_spec s.docs s.rest with ⟨_, _, _, _, plain⟩
  rw [settle, settle, absorb_of_plain plain]

/-- The state after the next token has been read. -/
def step : ParserState :=
  { settle s with rest := (settle s).rest.tail }

theorem bind_run (parser : Parser α) (next : α → Parser β) (s : ParserState) :
    (parser >>= next) s = (parser s).andThen next :=
  rfl

theorem pure_run (v : α) (s : ParserState) : (pure v : Parser α) s = .done v s :=
  rfl

theorem advance_run : advance s = .done (head (settle s)) (step s) :=
  rfl

theorem step_settle : step (settle s) = step s := by
  rw [step, settle_settle, step]

theorem isPunct_run (mark : Char) (s : ParserState) :
    isPunct mark s = .done ((head (settle s)).isPunct mark) (settle s) :=
  rfl

theorem eatPunct_run (mark : Char) (s : ParserState) :
    eatPunct mark s =
      if (head (settle s)).isPunct mark then .done true (step s)
      else .done false (settle s) := by
  rw [eatPunct, bind_run, isPunct_run]
  cases (head (settle s)).isPunct mark with
  | true => simp [bind_run, advance_run, Reply.andThen, pure_run, step_settle]
  | false => rfl

theorem expectPunct_run (mark : Char) (s : ParserState) :
    expectPunct mark s =
      if (head (settle s)).isPunct mark then .done (head (settle s)) (step s)
      else fail ("\"" ++ mark.toString ++ "\"") (settle s) := by
  rw [expectPunct, bind_run, isPunct_run]
  simp only [Reply.andThen]
  grind [settle_settle, step_settle, advance_run]

theorem expectIdent_run (what : String) (s : ParserState) :
    expectIdent what s =
      if (head (settle s)).kind = .ident then
        .done ((head (settle s)).text, (head (settle s)).span) (step s)
      else fail what (settle s) := by
  rw [expectIdent, bind_run]
  simp only [current, Reply.andThen]
  split
  · simp only [bind_run, advance_run, Reply.andThen, pure_run, step_settle]
  · rfl

theorem expectName_run (what : String) (s : ParserState) :
    expectName what s =
      if isName (head (settle s)) then
        .done ((head (settle s)).text, (head (settle s)).span) (step s)
      else fail what (settle s) := by
  rw [expectName, bind_run]
  simp only [current, Reply.andThen]
  split
  · simp only [bind_run, advance_run, Reply.andThen, pure_run, step_settle]
  · rfl

theorem expectString_run (what : String) (s : ParserState) :
    expectString what s =
      match (head (settle s)).kind with
      | .string v => .done v (step s)
      | _ => fail what (settle s) := by
  rw [expectString, bind_run]
  simp only [current, Reply.andThen]
  cases (head (settle s)).kind with
  | string v => simp only [bind_run, advance_run, Reply.andThen, pure_run, step_settle]
  | _ => rfl

theorem nameTail_run (parts : List String) (span : Span) (s : ParserState) :
    nameTail parts span s =
      if (head (settle s)).isPunct '.' then
        (expectIdent "identifier after \".\"" (step s)).andThen fun hit next =>
          if next.rest.length < s.rest.length then nameTail (parts ++ [hit.1]) hit.2 next
          else .failed next
      else .done (parts, span) (settle s) := by
  rw [nameTail]
  simp only [step]
  split
  · cases expectIdent "identifier after \".\"" _ with
    | done hit next => rfl
    | failed next => rfl
  · rfl

theorem unplaced_namedType (name : String) (span : Span) :
    (namedType name span).unplaced = namedType name default := by
  unfold namedType
  split
  · rfl
  · split <;> rfl

/-! ## Literals by their tokens -/

theorem signOf_eq_some_iff :
    signOf tok = some negative ↔ tok.isPunct (if negative then '-' else '+') := by
  simp only [signOf, Token.isPunct]
  cases negative <;> grind

theorem wordNumber?_eq_some_iff : wordNumber? word = some v ↔ (word.toLower, v) ∈ numberWords := by
  grind [wordNumber?, numberWords]

theorem wordNumber?_eq_none_iff :
    wordNumber? word = none ↔ word.toLower ∉ numberWords.map Prod.fst := by
  grind [wordNumber?, numberWords]

theorem isName_iff : isName tok ↔ MayName tok := by
  unfold isName MayName
  cases tok.kind <;> simp

theorem signedLiteral?_eq_some_iff :
    signedLiteral? negative tok = some v ↔
      ∃ num, NumberOf tok num ∧ v = if negative then negated num else num := by
  constructor
  · intro hit
    unfold signedLiteral? at hit
    split at hit
    · next num kind =>
        refine ⟨_, .int kind, ?_⟩
        cases negative <;> exact (Option.some.inj hit).symm
    · next num kind =>
        refine ⟨_, .float kind, ?_⟩
        cases negative <;> exact (Option.some.inj hit).symm
    · next kind =>
        rcases Option.map_eq_some_iff.mp hit with ⟨num, means, same⟩
        refine ⟨_, .word kind (wordNumber?_eq_some_iff.mp means), ?_⟩
        cases negative <;> exact same.symm
    · cases hit
  · rintro ⟨num, means, rfl⟩
    cases means with
    | int kind => cases negative <;> simp [signedLiteral?, kind, negated]
    | float kind => cases negative <;> simp [signedLiteral?, kind, negated]
    | word kind spelled =>
      have means := wordNumber?_eq_some_iff.mpr spelled
      cases negative <;> simp [signedLiteral?, kind, means, negated]

theorem plainLiteral?_eq_some_iff : plainLiteral? tok = some v ↔ LiteralOf [tok] v := by
  constructor
  · intro hit
    unfold plainLiteral? at hit
    split at hit
    · next kind =>
        cases hit
        exact .bool kind
    · next kind =>
        cases hit
        exact .bool kind
    · next text kind =>
        cases hit
        exact .string kind
    · next kind =>
        split at hit
        · next num means =>
            cases hit
            exact .number (.word kind (wordNumber?_eq_some_iff.mp means))
        · next plain =>
            cases hit
            exact .name kind (wordNumber?_eq_none_iff.mp plain)
    · rcases signedLiteral?_eq_some_iff.mp hit with ⟨num, means, rfl⟩
      exact .number means
  · intro means
    cases means with
    | number num =>
      cases num with
      | int kind => simp [plainLiteral?, signedLiteral?, kind]
      | float kind => simp [plainLiteral?, signedLiteral?, kind]
      | word kind spelled => simp [plainLiteral?, kind, wordNumber?_eq_some_iff.mpr spelled]
    | @bool _ truth word => cases truth <;> simp [plainLiteral?, word]
    | string quoted => simp [plainLiteral?, quoted]
    | name ident plain => simp [plainLiteral?, ident, wordNumber?_eq_none_iff.mpr plain]

end Parser

/-! ## What reading leaves -/

/-- The documentation that waits or is still to come. -/
def ParserState.lines (s : ParserState) : List String :=
  s.docs ++ docLines s.rest

/-- One state comes after another. -/
structure Passes (pre post : ParserState) : Prop where
  last_eq : post.last = pre.last
  reports_le : pre.reports.length ≤ post.reports.length
  isSuffix : post.rest <:+ pre.rest
  lines : post.lines ⊆ pre.lines

/-- A construct was abandoned with a report. -/
structure Faults (pre post : ParserState) : Prop where
  passes : Passes pre post
  reports_lt : pre.reports.length < post.reports.length

/-- Of the tokens read since a state some are kept, and all but documentation without a report. -/
structure Retains (src : ParserState) (kept : List Token) (s : ParserState) : Prop where
  passes : Passes src s
  eof : s.last.kind = .eof
  split : ∃ all,
    src.rest = all ++ s.rest ∧ kept.Sublist (withoutDocs all) ∧
      (s.reports.length = src.reports.length → kept = withoutDocs all)

/-- A construct ends with a value and a state of which something holds, or with a report. -/
def Ends {α : Type} (src : ParserState) (holds : α → ParserState → Prop) : Reply α → Prop
  | .done v post => holds v post
  | .failed post => Faults src post

namespace Passes

variable {pre mid post s : ParserState}

theorem refl (s : ParserState) : Passes s s :=
  ⟨rfl, Nat.le_refl _, List.suffix_rfl, List.Subset.refl _⟩

theorem trans (fst : Passes pre mid) (snd : Passes mid post) : Passes pre post where
  last_eq := snd.last_eq.trans fst.last_eq
  reports_le := Nat.le_trans fst.reports_le snd.reports_le
  isSuffix := snd.isSuffix.trans fst.isSuffix
  lines := List.Subset.trans snd.lines fst.lines

theorem faults (fst : Passes pre mid) (snd : Faults mid post) : Faults pre post :=
  ⟨fst.trans snd.passes, Nat.lt_of_le_of_lt fst.reports_le snd.reports_lt⟩

theorem settle (s : ParserState) : Passes s (Parser.settle s) := by
  rcases Parser.absorb_spec s.docs s.rest with ⟨lead, split, _, lines, _⟩
  refine ⟨rfl, Nat.le_refl _, ⟨lead, split.symm⟩, ?_⟩
  simp only [ParserState.lines, Parser.settle]
  rw [lines, List.append_assoc, ← docLines_append, ← split]
  exact List.Subset.refl _

/-- Tokens that are dropped and reports that are added take nothing from the lines. -/
theorem of_drop (kept : docs ⊆ s.docs) (suffix : rest <:+ s.rest)
    (more : s.reports.length ≤ reports.length) : Passes s ⟨rest, s.last, docs, reports⟩ := by
  refine ⟨rfl, more, suffix, ?_⟩
  apply List.append_subset.mpr
  constructor
  · exact List.Subset.trans kept (List.subset_append_left _ _)
  · grind [ParserState.lines, docLines]

theorem dropDocs (s : ParserState) : Passes s { s with docs := [] } :=
  .of_drop (List.nil_subset _) List.suffix_rfl (Nat.le_refl _)

theorem skip (opened : (Parser.settle s).rest = tok :: rest) :
    Passes s { Parser.settle s with rest := rest } :=
  (settle s).trans (.of_drop (List.Subset.refl _) ⟨[tok], opened.symm⟩ (Nat.le_refl _))

theorem keeps (passes : Passes pre post) (eof : pre.last.kind = .eof)
    (split : pre.rest = all ++ post.rest) : Retains pre (withoutDocs all) post :=
  ⟨passes, by rw [passes.last_eq]; exact eof, all, split, .refl _, fun _ => rfl⟩

end Passes

/-- After its documentation the next token is that of the state, or the last of all. -/
theorem Parser.head_settle_cases (s : ParserState) :
    (settle s).rest = [] ∧ head (settle s) = s.last ∨
      ∃ tok rest, (settle s).rest = tok :: rest ∧ head (settle s) = tok ∧ tok.kind ≠ .doc := by
  rcases absorb_spec s.docs s.rest with ⟨_, _, _, _, plain⟩
  have rest_eq : (settle s).rest = (absorb s.docs s.rest).2 := rfl
  cases hit : (settle s).rest with
  | nil =>
    refine .inl ⟨rfl, ?_⟩
    rw [head, hit]
    rfl
  | cons tok rest =>
    refine .inr ⟨tok, rest, rfl, ?_, ?_⟩
    · rw [head, hit]
      rfl
    · grind

namespace Retains

variable {src s post : ParserState} {kept more : List Token}

theorem refl (eof : s.last.kind = .eof) : Retains s [] s :=
  ⟨.refl s, eof, [], rfl, .refl _, fun _ => rfl⟩

variable (here : Retains src kept s)
include here

theorem trans (later : Retains s more post) : Retains src (kept ++ more) post := by
  have passed := here.passes.reports_le
  have passes := later.passes.reports_le
  rcases here.split with ⟨front, front_eq, kept_sublist, kept_eq⟩
  rcases later.split with ⟨back, back_eq, more_sublist, more_eq⟩
  refine ⟨here.passes.trans later.passes, later.eof, front ++ back, ?_, ?_, ?_⟩
  · rw [front_eq, back_eq, List.append_assoc]
  · grind [withoutDocs]
  grind [withoutDocs]

theorem settle : Retains src kept (Parser.settle s) := by
  rcases Parser.absorb_spec s.docs s.rest with ⟨lead, split, all, _, _⟩
  have settled := here.trans ((Passes.settle s).keeps here.eof split)
  rwa [withoutDocs_eq_nil all, List.append_nil] at settled

theorem dropDocs : Retains src kept { s with docs := [] } := by
  have dropped := here.trans ((Passes.dropDocs s).keeps here.eof (List.nil_append _).symm)
  rwa [withoutDocs_eq_nil (by simp), List.append_nil] at dropped

theorem next (hit : (Parser.settle s).rest = tok :: rest) :
    Retains src (kept ++ [tok]) { Parser.settle s with rest := rest } := by
  rcases Parser.head_settle_cases s with ⟨empty, _⟩ | ⟨_, _, isRest, _, plain⟩
  · rw [empty] at hit
    cases hit
  · rw [isRest] at hit
    cases hit
    have one : Passes (Parser.settle s) { Parser.settle s with rest := rest } :=
      .of_drop (List.Subset.refl _) ⟨[tok], isRest.symm⟩ (Nat.le_refl _)
    have read := here.settle.trans (one.keeps here.settle.eof (show _ = [tok] ++ rest from isRest))
    rwa [withoutDocs_cons plain] at read

/-- Reading a token that is not the end of the file. -/
theorem step (fits : (Parser.head (Parser.settle s)).kind ≠ .eof) :
    Retains src (kept ++ [Parser.head (Parser.settle s)]) (Parser.step s) := by
  rcases Parser.head_settle_cases s with ⟨_, isLast⟩ | ⟨tok, rest, hit, isHead, _⟩
  · rw [isLast] at fits
    exact (fits here.eof).elim
  · rw [isHead, Parser.step, hit]
    exact here.next hit

/-- What was abandoned keeps nothing. -/
theorem faults (lost : Faults s post) : Retains src kept post := by
  rcases lost.passes.isSuffix with ⟨all, split⟩
  have nothing : Retains s [] post := by
    refine ⟨lost.passes, ?_, all, split.symm, List.nil_sublist _, ?_⟩
    · rw [lost.passes.last_eq]
      exact here.eof
    · intro quiet
      exact (Nat.ne_of_gt lost.reports_lt quiet).elim
  have whole := here.trans nothing
  rwa [List.append_nil] at whole

/-- What was kept makes the unread tokens fewer. -/
theorem length_lt (nonempty : kept ≠ []) : s.rest.length < src.rest.length := by
  rcases here.split with ⟨all, split, sublist, _⟩
  have some : all ≠ [] := by
    grind [withoutDocs]
  have pos := List.length_pos_iff.mpr some
  rw [split, List.length_append]
  omega

end Retains

namespace Ends

variable {α β : Type} {src s : ParserState} {holds : α → ParserState → Prop}
  {later : β → ParserState → Prop}

theorem imp (ends : Ends src holds reply)
    (gives : ∀ v post, holds v post → weaker v post) : Ends src weaker reply := by
  cases reply with
  | done v post => exact gives v post ends
  | failed post => exact ends

/-- A construct goes on after a part of it. -/
theorem andThen (first : Ends src holds reply)
    (goesOn : ∀ v post, holds v post → Ends src later (next v post)) :
    Ends src later (reply.andThen next) := by
  cases reply with
  | done v post => exact goesOn v post first
  | failed post => exact first

theorem failAt (here : Retains src kept s) (expected hit : String) (span : Span) :
    Ends src holds (Parser.failAt expected hit span s) := by
  have longer : s.reports.length < (s.reports ++ [Parser.mismatch expected hit span]).length := by
    grind
  exact here.passes.faults
    ⟨.of_drop (List.Subset.refl _) List.suffix_rfl (Nat.le_of_lt longer), longer⟩

theorem fail (here : Retains src kept s) (expected : String) :
    Ends src holds (Parser.fail expected s) :=
  failAt here.settle ..

end Ends

end FlatSchema
