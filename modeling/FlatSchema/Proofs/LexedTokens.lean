import FlatSchema.Token.Lexer

/-!
# What tokens are made of

The tokens of a text end with the one end of the file.  Those before it have
well-formed contents: names are words that are not reserved, reserved words
have their spelling, a numeral with a point or an exponent is a number without
a sign, and no line of documentation holds a line feed.
-/

namespace FlatSchema

open BinaryFormat Keyword

namespace Lexer

/-- The characters of a name. -/
def IsWord (chars : List Char) : Prop :=
  ∃ hd rest, chars = hd :: rest ∧ isNameStart hd ∧ ∀ part ∈ rest, isNamePart part

/-- The contents that a token of each class may have; the end of the file is read off nothing. -/
def Lexed : TokenClass → String → Prop
  | .ident, text => IsWord text.toList ∧ ofSpelling? text = none
  | .keyword kw, text => ofSpelling? text = some kw
  | .float v, _ =>
    ∃ mag ≤ double.infinity, v = Double.ofMagnitude false mag
  | .doc, text => '\n' ∉ text.toList
  | .eof, _ => False
  | _, _ => True

theorem roundRatio_le (num den : Nat) : double.roundRatio num den ≤ double.infinity := by
  unfold roundRatio
  split
  · exact Nat.zero_le _
  · exact Nat.min_le_left _ _

theorem magnitude_le (numeral : Decimal) : numeral.magnitude ≤ double.infinity := by
  unfold Decimal.magnitude
  simp only
  split
  · exact Nat.zero_le _
  · split
    · exact Nat.le_refl _
    · exact roundRatio_le _ _

/-- What a scan may give as a token. -/
def Scan.Lexes : Scan → Prop
  | .token kind text _ _ => Lexed kind text
  | _ => True

theorem endNumber_lexes (lexed : ∀ text, Lexed kind text) (lexeme rest : List Char) :
    (endNumber kind lexeme rest).Lexes := by
  unfold endNumber
  split
  · exact lexed _
  · split
    · trivial
    · exact lexed _

theorem scanNumber_lexes (chars : List Char) : (scanNumber chars).Lexes := by
  unfold scanNumber
  simp only
  split
  · apply endNumber_lexes
    intro text
    split
    · trivial
    · exact ⟨_, magnitude_le _, rfl⟩
  · apply endNumber_lexes
    intro text
    trivial

theorem docText_subset (body : List Char) : ∀ char ∈ (docText body).toList, char ∈ body := by
  have dropped : ∀ char ∈ (if body.getLast? = some '\r' then body.dropLast else body),
      char ∈ body := by
    grind [List.dropLast_sublist]
  intro char mem
  unfold docText at mem
  simp only at mem
  split at mem
  · simp_all
  · simp_all

theorem scanLineComment_lexes (chars : List Char) : (scanLineComment chars).Lexes := by
  unfold scanLineComment
  split
  · intro hit
    grind [docText_subset, List.all_takeWhile, List.mem_of_mem_drop]
  · trivial

theorem scanName_lexes (rest : List Char) (starts : isNameStart hd) :
    (scanName (hd :: rest)).Lexes := by
  have part : isNamePart hd := by
    simp only [isNameStart, isNamePart, Char.isAlphanum] at starts ⊢
    grind
  have word : IsWord ((hd :: rest).takeWhile isNamePart) := by
    refine ⟨hd, rest.takeWhile isNamePart, ?_, starts, ?_⟩
    · rw [List.takeWhile_cons_of_pos part]
    · grind [List.all_takeWhile]
  unfold scanName
  simp only
  split
  · next kw hit => exact hit
  · next hit =>
      refine ⟨?_, hit⟩
      rw [String.toList_ofList]
      exact word

theorem scan_lexes (char : Char) (tail : List Char) : (scan char tail).Lexes := by
  unfold scan
  simp only
  split
  · trivial
  split
  · exact scanLineComment_lexes _
  split
  · split <;> trivial
  split
  · unfold scanQuoted
    split <;> trivial
  split
  · exact scanNumber_lexes _
  split
  · next starts => exact scanName_lexes tail starts
  split <;> trivial

/-- The tokens of a text are well formed up to the one end of the file. -/
theorem tokensFrom_lexed (hit : tokensFrom file pos chars = .ok toks) :
    ∃ front last,
      toks = front ++ [last] ∧ last.kind = .eof ∧ ∀ tok ∈ front, Lexed tok.kind tok.text := by
  fun_induction tokensFrom file pos chars generalizing toks with
  | case1 pos =>
    cases hit
    exact ⟨[], _, rfl, rfl, nofun⟩
  | case2 pos char tail lexeme rest scanned ih => exact ih hit
  | case3 pos char tail kind text lexeme rest scanned stop others read =>
    rename_i ih
    cases hit
    rcases ih read with ⟨front, last, rfl, isEof, lexed⟩
    refine ⟨_ :: front, last, rfl, isEof, ?_⟩
    intro tok mem
    rcases List.mem_cons.mp mem with rfl | later
    · have lexes := scan_lexes char tail
      rw [scanned] at lexes
      exact lexes
    · exact lexed tok later
  | case4 | case5 => cases hit

end Lexer

end FlatSchema
