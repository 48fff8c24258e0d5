import FlatSchema.Proofs.LexedTokens
import FlatSchema.Proofs.Positions
import Mathlib.Data.List.Infix

/-!
# Tokens tile the text

The tokens of a source cover its text: each stands where its span says, in
order, and has the characters of its span as its text, documentation apart.
Between them stand only blanks and comments.  A text without tokens has one
fault, which lies inside it or at its end.
-/

namespace FlatSchema

variable {src : Source} {read chars gap lexeme rest before after : List Char} {toks : List Token}

/-! ## Gaps -/

namespace Lexer

/-- What may stand before the rest of a text that begins with a token: blanks, comments up to the
end of their line other than documentation, and block comments up to their first end. -/
inductive Gap (rest : List Char) : List Char → Prop where
  | nil : Gap rest []
  | blank {char : Char} {chars : List Char} (isBlank : isBlank char) (others : Gap rest chars) :
      Gap rest (char :: chars)
  | line {body chars : List Char} (oneLine : '\n' ∉ body)
      (notDoc : isDoc ('/' :: '/' :: body) = false)
      (ends : ∀ char ∈ (chars ++ rest).head?, char = '\n') (others : Gap rest chars) :
      Gap rest ('/' :: '/' :: (body ++ chars))
  | block {body chars : List Char} (first : ¬ ['*', '/'] <:+: body) (others : Gap rest chars) :
      Gap rest ('/' :: '*' :: (body ++ '*' :: '/' :: chars))

/-- What a scan must be for tokens to tile: a blank lengthens every gap behind it, and a token has
its own characters as its text. -/
def Scan.Exact : Scan → Prop
  | .blank lexeme rest =>
    ∀ gap behind, rest = gap ++ behind → Gap behind gap → Gap behind (lexeme ++ gap)
  | .token kind text lexeme _ => kind ≠ .doc → text = String.ofList lexeme
  | .fault _ _ => True

theorem closeComment_first (hit : closeComment chars = some (lexeme, rest)) :
    ∃ body, lexeme = body ++ ['*', '/'] ∧ ¬ ['*', '/'] <:+: body := by
  fun_induction closeComment chars generalizing lexeme rest with
  | case1 => simp at hit
  | case2 tail =>
    cases hit
    exact ⟨[], rfl, by simp⟩
  | case3 char tail other ih =>
    rcases Option.map_eq_some_iff.mp hit with ⟨⟨inner, after⟩, found, same⟩
    cases same
    rcases ih found with ⟨body, rfl, first⟩
    refine ⟨char :: body, rfl, fun inside => ?_⟩
    rcases List.infix_cons_iff.mp inside with front | later
    · have reads := closeComment_reads found
      rcases front with ⟨behind, same⟩
      grind
    · exact first later

theorem isDoc_iff (chars : List Char) :
    isDoc chars ↔ ['/', '/', '/'] <+: chars ∧ ¬ ['/', '/', '/', '/'] <+: chars := by
  unfold isDoc
  split
  · simp
  · next other =>
      refine iff_of_true rfl ⟨⟨_, rfl⟩, ?_⟩
      rintro ⟨rest, same⟩
      cases same
      exact other rest rfl
  · next other =>
      refine iff_of_false (by simp) ?_
      rintro ⟨⟨rest, same⟩, _⟩
      exact other rest same.symm

/-- Whether a line is documentation shows before its end. -/
theorem isDoc_takeWhile (chars : List Char) : isDoc (chars.takeWhile (· ≠ '\n')) = isDoc chars := by
  have kept {front : List Char} (one : ∀ char ∈ front, char ≠ '\n') :
      front <+: chars.takeWhile (· ≠ '\n') ↔ front <+: chars := by
    refine ⟨fun inside => inside.trans (List.takeWhile_prefix _), ?_⟩
    rintro ⟨rest, rfl⟩
    simp_all
  rw [Bool.eq_iff_iff, isDoc_iff, isDoc_iff, kept (by simp), kept (by simp)]

theorem scanLineComment_exact (tail : List Char) :
    (scanLineComment ('/' :: '/' :: tail)).Exact := by
  unfold scanLineComment
  split
  · exact fun doc => absurd rfl doc
  · next notDoc =>
      intro gap behind split others
      have cut :
          ('/' :: '/' :: tail).takeWhile (· ≠ '\n') = '/' :: '/' :: tail.takeWhile (· ≠ '\n') := by
        simp
      refine .line ?_ ?_ ?_ others
      · grind [List.all_takeWhile]
      · rw [← cut, isDoc_takeWhile]
        simpa using notDoc
      · intro char mem
        have stop := List.head?_dropWhile_not (· ≠ '\n') ('/' :: '/' :: tail)
        rw [split, Option.mem_def.mp mem] at stop
        simpa using stop

theorem endNumber_exact (kind : TokenClass) (lexeme rest : List Char) :
    (endNumber kind lexeme rest).Exact := by
  unfold endNumber
  split
  · exact fun _ => rfl
  · split
    · trivial
    · exact fun _ => rfl

theorem scan_exact (char : Char) (tail : List Char) : (scan char tail).Exact := by
  unfold scan
  simp only
  split
  · next isBlank => exact fun gap _ _ others => .blank isBlank others
  split
  · next marks =>
      unfold startsWith2 at marks
      split at marks
      · simp_all [scanLineComment_exact, Bool.and_eq_true, decide_eq_true_eq]
      · simp at marks
  split
  · next marks =>
      split
      · next lexeme rest closed =>
          rcases closeComment_first closed with ⟨body, rfl, first⟩
          intro gap _ _ others
          simpa using Gap.block first others
      · trivial
  split
  · unfold scanQuoted
    split
    · exact fun _ => rfl
    all_goals trivial
  split
  · unfold scanNumber
    simp only
    split <;> exact endNumber_exact _ _ _
  split
  · unfold scanName
    simp only
    split <;> exact fun _ => rfl
  split
  · exact fun _ => rfl
  · trivial

end Lexer

/-! ## Tiles -/

/-- The tokens behind some characters of a source cover the rest of its text. -/
inductive Source.Tiles (src : Source) : List Char → List Token → Prop where
  | done {read gap : List Char} (whole : src.text.toList = read ++ gap) (blank : Lexer.Gap [] gap) :
      Tiles src read [⟨.eof, "", src.span src.length src.length⟩]
  | token {read gap lexeme rest : List Char} {kind : TokenClass} {text : String} {toks : List Token}
      (whole : src.text.toList = read ++ gap ++ (lexeme ++ rest))
      (blank : Lexer.Gap (lexeme ++ rest) gap) (full : lexeme ≠ []) (notEof : kind ≠ .eof)
      (spelled : kind ≠ .doc → text = String.ofList lexeme)
      (others : Tiles src (read ++ gap ++ lexeme) toks) :
      Tiles src read
        (⟨kind, text, src.span (widthOf (read ++ gap)) (widthOf (read ++ gap ++ lexeme))⟩ :: toks)

namespace Source.Tiles

/-- A blank in front lengthens the first gap. -/
theorem blank (tiles : src.Tiles (read ++ lexeme) toks)
    (whole : src.text.toList = read ++ (lexeme ++ rest))
    (longer : ∀ gap behind, rest = gap ++ behind → Lexer.Gap behind gap →
      Lexer.Gap behind (lexeme ++ gap)) : src.Tiles read toks := by
  cases tiles with
  | @done _ gap all blank =>
    exact .done (by simpa using all) (longer gap [] (by simpa [whole] using all) blank)
  | @token _ gap own behind kind text toks all blank full notEof spelled others =>
    have split : rest = gap ++ (own ++ behind) := by simpa [whole] using all
    have tiles : src.Tiles read _ :=
      .token (by simpa using all) (longer gap _ split blank) full notEof spelled
        (by simpa using others)
    simpa using tiles

/-- Tokens stand behind what was read, in order, and inside the text. -/
theorem ordered (tiles : src.Tiles read toks) :
    (∀ tok ∈ toks, widthOf read ≤ tok.span.start.offset ∧
        tok.span.start.offset ≤ tok.span.stop.offset ∧ tok.span.stop.offset ≤ src.length) ∧
      toks.Pairwise fun one two => one.span.stop.offset ≤ two.span.start.offset := by
  have offsets {start stop : Nat} (fits : start ≤ stop) (ends : stop ≤ src.length) :
      (src.span start stop).start.offset = start ∧ (src.span start stop).stop.offset = stop :=
    ⟨clamp_eq (fits.trans ends), clamp_eq ends⟩
  induction tiles with
  | @done read gap whole blank =>
    simp_all [widthOf_le, Nat.le_refl]
  | @token read gap lexeme behind kind text toks whole blank full notEof spelled others ih =>
    rw [← List.append_assoc] at whole
    have fits := widthOf_le whole
    have wide := widthOf_append (read ++ gap) lexeme
    have widen := widthOf_append read gap
    have wider : widthOf (read ++ gap) ≤ widthOf (read ++ gap ++ lexeme) := by omega
    have same := offsets wider fits
    refine ⟨List.forall_mem_cons.mpr ⟨?_, fun tok mem => ?_⟩, List.pairwise_cons.mpr ⟨?_, ih.2⟩⟩
    · simp only [same]
      omega
    · have := ih.1 tok mem
      omega
    grind

/-- The end of the file is the last token and no other. -/
theorem eof (tiles : src.Tiles read toks) :
    ∃ front, toks = front ++ [⟨.eof, "", src.span src.length src.length⟩] ∧
      ∀ tok ∈ front, tok.kind ≠ .eof := by
  induction tiles with
  | done => exact ⟨[], rfl, by simp⟩
  | token _ _ _ notEof _ _ ih =>
    rcases ih with ⟨front, rfl, others⟩
    exact ⟨_ :: front, rfl, List.forall_mem_cons.mpr ⟨notEof, others⟩⟩

end Source.Tiles

namespace Lexer

/-- The place of a report is an offset of the text. -/
def Locates (src : Source) (d : Diagnostic) : Prop :=
  ∃ offset ≤ src.length, d.file = src.path ∧ d.line = some ((src.position offset).line : Int) ∧
    d.column = some ((src.position offset).column : Int)

theorem tokensFrom_tiles (whole : src.text.toList = read ++ chars)
    (stands : pos = Position.start.advanceAll read) :
    (∀ toks, tokensFrom src.path pos chars = .ok toks → src.Tiles read toks) ∧
      ∀ d, tokensFrom src.path pos chars = .error d → Locates src d := by
  fun_induction tokensFrom src.path pos chars generalizing read with
  | case1 pos =>
    refine ⟨fun toks hit => ?_, by simp⟩
    cases hit
    have ends := Source.position_widthOf whole
    rw [← stands] at ends
    have wide : src.length = Source.widthOf read := by
      rw [Source.length_eq_widthOf, whole, List.append_nil]
    have tiles := Source.Tiles.done whole .nil
    rwa [Source.span, wide, ends] at tiles
  | case2 pos char tail lexeme rest scanned ih =>
    have reads := scan_splits char tail
    have exact := scan_exact char tail
    rw [scanned] at reads exact
    rw [← reads.1, ← List.append_assoc] at whole
    have ih := ih whole (by rw [stands, Source.advanceAll_append])
    exact ⟨fun toks hit => (ih.1 toks hit).blank (by simpa using whole) exact, ih.2⟩
  | case3 pos char tail kind text lexeme rest scanned stop others hit =>
    rename_i ih
    have reads := scan_splits char tail
    have exact := scan_exact char tail
    have lexes := scan_lexes char tail
    rw [scanned] at reads exact lexes
    rw [← reads.1] at whole
    have start := Source.position_widthOf whole
    rw [← List.append_assoc] at whole
    have ends := Source.position_widthOf whole
    have behind : stop = Position.start.advanceAll (read ++ lexeme) := by
      rw [Source.advanceAll_append, ← stands]
    refine ⟨fun toks same => ?_, by simp⟩
    cases same
    have notEof : kind ≠ .eof := by
      rintro rfl
      exact lexes
    have tiles : src.Tiles read _ := .token (by simpa using whole) .nil reads.2 notEof exact
      (by simpa using (ih whole behind).1 others hit)
    simpa [Source.span, start, ends, stands, behind] using tiles
  | case4 pos char tail kind text lexeme rest scanned stop d hit =>
    have reads := scan_splits char tail
    rw [scanned] at reads
    rw [← reads.1] at whole
    grind [Source.advanceAll_append]
  | case5 pos char tail fault before scanned =>
    have reads := scan_splits char tail
    rw [scanned] at reads
    rcases reads with ⟨rest, same⟩
    rw [← same, ← List.append_assoc] at whole
    refine ⟨by simp, fun d hit => ?_⟩
    cases hit
    refine ⟨_, Source.widthOf_le whole, rfl, ?_⟩
    rw [Source.position_widthOf whole, Source.advanceAll_append, ← stands]
    exact ⟨rfl, rfl⟩

/-- The tokens of a text tile it in order, each with the characters of its span, with blanks and
comments between them and the one end of the file at its end; or the text has one fault in it. -/
theorem tokens_tile (src : Source) :
    (∃ toks, src.tokens = .ok toks ∧ src.Tiles [] toks ∧
        toks.Pairwise (fun one two => one.span.stop.offset ≤ two.span.start.offset) ∧
        ∃ front, toks = front ++ [⟨.eof, "", src.span src.length src.length⟩] ∧
          ∀ tok ∈ front, tok.kind ≠ .eof) ∨ ∃ d, src.tokens = .error d ∧ Locates src d := by
  have whole : src.text.toList = [] ++ src.text.toList := rfl
  have tiles := tokensFrom_tiles whole rfl
  cases hit : src.tokens with
  | ok toks =>
    have tiles := tiles.1 toks hit
    exact .inl ⟨toks, rfl, tiles, tiles.ordered.2, tiles.eof⟩
  | error d => exact .inr ⟨d, rfl, tiles.2 d hit⟩

end Lexer

end FlatSchema
